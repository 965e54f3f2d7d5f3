import LibMemcached.Impl.AsciiTrace
import LibMemcached.Proof.GetLines
import LibMemcached.Proof.StorageBytes

/-!
# The trace of a line

The token vector of a line: each of its pointers is at a word of the line that a zero ends in front of
the line feed, or in its place (`tokenizeLine_holds`). So what the trace of a round reads there is what
the handlers are given (`Tokenized.Holds.string_eq`, `Tokenized.Holds.key_eq`).
-/

namespace LM

open List

variable {σ : Type} {after : Bytes} {callback : Callback} {ntokens : Nat} {line : Bytes}

/-! ## The token vector -/

section Words

variable {blanks word : Bytes} (hblanks : ∀ b ∈ blanks, isSpace b = true) (hne : word ≠ [])
  (hword : ∀ b ∈ word, isSpace b = false)
include hblanks hne hword

theorem tokenizeStarts_word {b : UInt8} (hb : isSpace b = true) (rest : Bytes) (fuel size str : Nat) :
    tokenizeStarts (fuel + 1) (size + 1) str (blanks ++ (word ++ b :: rest)) =
      (str + blanks.length) :: tokenizeStarts fuel size (str + blanks.length + word.length + 1) rest := by
  obtain ⟨htake, hdrop⟩ := blanks_word hblanks hne hword (b :: rest)
  obtain ⟨hw, hafter⟩ := word_rest hword hb rest
  have hnil : word ++ b :: rest ≠ [] := by simp
  simp only [tokenizeStarts, htake, hdrop, hw, hafter, if_neg hnil]

theorem tokenizeStarts_last (fuel size str : Nat) :
    tokenizeStarts (fuel + 1) (size + 1) str (blanks ++ word) = [str + blanks.length] := by
  obtain ⟨htake, hdrop⟩ := blanks_word hblanks hne hword []
  rw [append_nil] at htake hdrop
  obtain ⟨hw, hafter⟩ := word_end hword
  simp only [tokenizeStarts, htake, hdrop, hafter, if_neg hne]

end Words

theorem tokenizeStarts_blank {rest : Bytes} (h : ∀ b ∈ rest, isSpace b = true) (fuel size str : Nat) :
    tokenizeStarts (fuel + 1) (size + 1) str rest = [] := by
  have hdrop : rest.dropWhile isSpace = [] := dropWhile_eq_nil_iff.mpr h
  simp only [tokenizeStarts, hdrop, if_true]

/-- At `start`, before the end of the line, the memory has the word and a zero. -/
def TokenAt (mem : Bytes) (end_ start : Nat) (word : Bytes) : Prop :=
  start + word.length ≤ end_ ∧ ∃ more, mem.drop start = word ++ 0 :: more

/-- The pointers in the vector are those of the words, and each word is terminated in its line. -/
theorem tokenizeLoop_tokenAt (fuel size : Nat) (front rest after : Bytes) : List.Forall₂
      (TokenAt (front ++ ((tokenizeLoop fuel size rest).2 ++ after)) (front.length + rest.length))
      (tokenizeStarts fuel size front.length rest) (tokenizeLoop fuel size rest).1 := by
  induction fuel generalizing size front rest with
  | zero => exact .nil
  | succ fuel ih =>
    cases size with
    | zero => exact .nil
    | succ size =>
      have hplace (blanks word more : Bytes) :
          (front ++ (blanks ++ word ++ 0 :: more)).drop (front.length + blanks.length) =
            word ++ 0 :: more := by
        rw [← drop_drop, drop_left, append_assoc, drop_left]
      rcases line_cases rest with hblank | ⟨blanks, word, hblanks, hne, hword, rfl | ⟨b, tail, hb, rfl⟩⟩
      · rw [tokenizeLoop_blank hblank, tokenizeStarts_blank hblank]
        exact .nil
      · rw [tokenizeLoop_last hblanks hne hword, tokenizeStarts_last hblanks hne hword]
        refine .cons ⟨?_, after, ?_⟩ .nil
        · simp only [length_append]
          omega
        · rw [append_assoc, cons_append, nil_append, hplace]
      · rw [tokenizeLoop_word hblanks hne hword hb, tokenizeStarts_word hblanks hne hword hb]
        have htail := ih size (front ++ blanks ++ word ++ [0]) tail
        have hfront : (front ++ blanks ++ word ++ [0]).length =
            front.length + blanks.length + word.length + 1 := by
          simp only [length_append, length_cons, length_nil]
        have hend : (front ++ blanks ++ word ++ [0]).length + tail.length =
            front.length + (blanks ++ (word ++ b :: tail)).length := by
          simp only [length_append, length_cons, length_nil]
          omega
        have hmem : front ++ blanks ++ word ++ [0] ++ ((tokenizeLoop fuel size tail).2 ++ after) =
            front ++ (blanks ++ word ++ 0 :: (tokenizeLoop fuel size tail).2 ++ after) := by
          simp only [append_assoc, cons_append, nil_append]
        rw [hend, hmem, hfront] at htail
        refine .cons ⟨?_, (tokenizeLoop fuel size tail).2 ++ after, ?_⟩ htail
        · simp only [length_append, length_cons]
          omega
        · rw [append_assoc, cons_append, hplace]

theorem cString_split (word more : Bytes) : ∃ more', word ++ 0 :: more = cString word ++ 0 :: more' := by
  induction word with
  | nil => exact ⟨more, rfl⟩
  | cons b word ih =>
    by_cases hb : b = 0
    · subst hb
      exact ⟨word ++ 0 :: more, rfl⟩
    · obtain ⟨more', hmore⟩ := ih
      refine ⟨more', ?_⟩
      rw [cString, takeWhile_cons_of_pos (by simp [hb]), cons_append, cons_append, hmore]
      rfl

theorem cString_length_le (word : Bytes) : (cString word).length ≤ word.length :=
  ( takeWhile_prefix _).length_le

theorem cString_cString (word : Bytes) : cString (cString word) = cString word :=
  takeWhile_eq_self_iff.mpr fun _ hb => mem_takeWhile_imp (p := (· != 0)) hb

theorem keyLength_zero (word more : Bytes) :
    keyLength (word ++ 0 :: more) = keyLength word ∧ keyLength word ≤ word.length := by
  have hkey : (word ++ 0 :: more).takeWhile keyByte = word.takeWhile keyByte :=
    takeWhile_append_stop (by decide) word more
  have hle : (word.takeWhile keyByte).length ≤ word.length := ( takeWhile_prefix _).length_le
  have hnext : (word ++ 0 :: more).getD (word.takeWhile keyByte).length 0 =
      word.getD (word.takeWhile keyByte).length 0 := by
    rcases Nat.lt_or_eq_of_le hle with hlt | heq
    · exact getD_append _ _ _ _ hlt
    · simp [heq]
  have hmod : (word.takeWhile keyByte).length % 2 ^ 16 ≤ word.length :=
    Nat.le_trans (Nat.mod_le _ _) hle
  simp only [keyLength, hkey, hnext]
  refine ⟨trivial, ?_⟩
  split
  · exact Nat.zero_le _
  · exact hmod

theorem parseAsciiKey_drop (mem : Bytes) : parseAsciiKey mem =
      ((mem.takeWhile isSpace).length, keyLength (mem.drop (mem.takeWhile isSpace).length)) := by
  have hnext (n : Nat) : mem.getD ((mem.takeWhile isSpace).length + n) 0 =
      (mem.drop (mem.takeWhile isSpace).length).getD n 0 := by
    rw [getD_eq_getElem?_getD, getD_eq_getElem?_getD, List.getElem?_drop]
  simp only [parseAsciiKey, hnext]
  rfl

theorem parseAsciiKey_zero (word more : Bytes) : parseAsciiKey (word ++ 0 :: more) = parseAsciiKey word ∧
      (parseAsciiKey word).1 + (parseAsciiKey word).2 ≤ word.length := by
  have hblanks : (word ++ 0 :: more).takeWhile isSpace = word.takeWhile isSpace :=
    takeWhile_append_stop (by decide) word more
  have hle : (word.takeWhile isSpace).length ≤ word.length := ( takeWhile_prefix _).length_le
  obtain ⟨hkey, hlength⟩ := keyLength_zero (word.drop (word.takeWhile isSpace).length) more
  rw [length_drop] at hlength
  rw [parseAsciiKey_drop, parseAsciiKey_drop word, hblanks, drop_append_of_le_length hle, hkey]
  exact ⟨rfl, by dsimp only; omega⟩

/-- The tokens of a line that was taken apart. -/
def Tokenized.Holds (t : Tokenized) (tokens : List Bytes) : Prop :=
  List.Forall₂ (fun start token => TokenAt t.mem t.end_ start token ∧ cString token = token)
    t.tokens tokens

theorem tokenizeLine_holds (line after : Bytes) (length : Nat) :
    (tokenizeLine (line ++ 10 :: after) line.length length).Holds (asciiTokenizeCommand line).1 := by
  have htake : (line ++ 10 :: after).take line.length = line := take_left
  have hdrop : (line ++ 10 :: after).drop (line.length + 1) = after := by
    rw [← drop_drop, drop_left]
    rfl
  have hmem := tokenizeLoop_tokenAt (line.length + 1) maxTokens [] line after
  rw [Tokenized.Holds]
  simp only [tokenizeLine, htake, hdrop, asciiTokenizeCommand, tokenVector]
  rw [forall₂_map_right_iff]
  refine hmem.imp fun start word h => ⟨?_, cString_cString word⟩
  obtain ⟨hle, more, hword⟩ := h
  obtain ⟨more', hsplit⟩ := cString_split word more
  have hshort := cString_length_le word
  rw [length_nil, Nat.zero_add] at hle
  exact ⟨by omega, more', hword.trans hsplit⟩

namespace Tokenized.Holds

variable {t : Tokenized} {tokens : List Bytes} (h : t.Holds tokens) {i : Nat} (hi : i < tokens.length)
include h

theorem length_eq : t.tokens.length = tokens.length := List.Forall₂.length_eq h

include hi

theorem token : TokenAt t.mem t.end_ (t.tokens.getD i 0) (tokens.getD i []) ∧
    cString (tokens.getD i []) = tokens.getD i [] := by
  have hi' : i < t.tokens.length := by rw [h.length_eq]; exact hi
  rw [getD_eq_getElem _ _ hi', getD_eq_getElem _ _ hi]
  exact List.Forall₂.get h hi' hi

theorem string_eq : t.string i = tokens.getD i [] := by
  obtain ⟨⟨-, more, hmem⟩, hzero⟩ := h.token hi
  rw [Tokenized.string, hmem, cString, takeWhile_append_stop (by decide)]
  exact hzero

theorem string_within : t.tokens.getD i 0 + (t.string i).length ≤ t.end_ := by
  rw [h.string_eq hi]
  exact (h.token hi).1.1

/-- The key at a token is the one of its text, and in the line. -/
theorem key_eq : match t.key i with
    | none => tokenKey (tokens.getD i []) = none
    | some (key, nkey) => tokenKey (tokens.getD i []) = some (slice t.mem key nkey) ∧
        key + nkey ≤ t.end_ := by
  obtain ⟨⟨hle, more, hmem⟩, -⟩ := h.token hi
  generalize tokens.getD i [] = token at hle hmem
  obtain ⟨hparse, hlength⟩ := parseAsciiKey_zero token more
  rw [Tokenized.key, hmem, hparse, tokenKey]
  by_cases hzero : (parseAsciiKey token).2 = 0
  · simp only [if_pos hzero]
  · simp only [if_neg hzero]
    refine ⟨?_, by omega⟩
    rw [slice, slice, ← drop_drop, hmem, drop_append_of_le_length (by omega),
      take_append_of_le_length (by rw [length_drop]; omega)]

end Tokenized.Holds

theorem length_dropNoreply_le {tokens : List Bytes} : (dropNoreply tokens).length ≤ tokens.length := by
  rw [dropNoreply]
  split
  · rw [length_dropLast]
    omega
  · exact Nat.le_refl _

theorem tokenizeLine_after (line after : Bytes) (length : Nat) :
    (tokenizeLine (line ++ 10 :: after) line.length length).mem.drop (line.length + 1) = after ∧
      (tokenizeLine (line ++ 10 :: after) line.length length).recovered =
        recoverTokenizeCommand (asciiTokenizeCommand line).2 ++ after := by
  have htokenized : (asciiTokenizeCommand line).2.length = line.length + 1 := by
    rw [asciiTokenizeCommand, length_tokenizeLoop]
  have hmem : (tokenizeLine (line ++ 10 :: after) line.length length).mem =
      (asciiTokenizeCommand line).2 ++ after := by
    simp only [tokenizeLine, take_left]
    rw [← drop_drop, drop_left]
    rfl
  rw [Tokenized.recovered, hmem]
  refine ⟨drop_left' htokenized, ?_⟩
  rw [show (tokenizeLine (line ++ 10 :: after) line.length length).end_ = line.length from rfl,
    take_left' htokenized, drop_left' htokenized]

end LM
