import LibMemcached.Impl.Commands
import LibMemcached.Proof.Encoding
import LibMemcached.Proof.Requests
import Mathlib.Data.List.TakeWhile

/-!
# Lines of the text protocol

How `ascii_handler.c` takes a line apart. The words of a line that was written with single blanks are
its tokens (`asciiTokenizeCommand_textLine`), whatever the words are; a word of graphic characters is
a key (`tokenKey_graphic`), and a number is read back.
-/

namespace LM

open List

variable {σ : Type} {words : List Bytes} {length : Nat} {end_ : Nat} {word : Bytes} {buffer : Bytes}
  {I : Interface σ}

/-! ## Line feeds -/

theorem idxOf?_append_cons {a : Bytes} {b : UInt8} (rest : Bytes) (h : b ∉ a) :
    (a ++ b :: rest).idxOf? b = some a.length := by
  refine idxOf?_eq_some_iff.mpr ⟨by simp, by simp, fun j hj hb => h ?_⟩
  rw [getElem_append_left hj] at hb
  exact hb ▸ getElem_mem hj

theorem idxOf?_eq_some {data : Bytes} (h : data.idxOf? 10 = some end_) :
    ∃ line rest, data = line ++ 10 :: rest ∧ line.length = end_ ∧ (10 : UInt8) ∉ line := by
  have hmem : (10 : UInt8) ∈ data := by
    by_contra hn
    rw [List.idxOf?_eq_none_iff.mpr hn] at h
    cases h
  obtain ⟨line, rest, rfl, hline⟩ := eq_append_cons_of_mem hmem
  rw [idxOf?_append_cons rest hline] at h
  exact ⟨line, rest, rfl, Option.some.inj h, hline⟩

/-! ## Tokens -/

/-- A word: it has no blanks and no zero. -/
structure IsWord (word : Bytes) : Prop where
  ne_nil : word ≠ []
  not_space : ∀ b ∈ word, isSpace b = false
  not_zero : ∀ b ∈ word, b ≠ 0

theorem IsWord.cString (h : IsWord word) : cString word = word :=
  takeWhile_eq_self_iff.mpr fun b hb => by simpa using h.not_zero b hb

theorem isWord_decimal (n : Nat) : IsWord (decimal n) where
  ne_nil := decimal_ne_nil n
  not_space _ hb := isSpace_of_isDigit (isDigit_of_mem_decimal hb)
  not_zero b hb := by
    rintro rfl
    exact absurd (isDigit_of_mem_decimal hb) (by decide)

/-- `isgraph`. -/
def isGraph (b : UInt8) : Bool := 33 ≤ b && b ≤ 126

theorem isGraph_toNat {b : UInt8} (h : isGraph b = true) : 33 ≤ b.toNat ∧ b.toNat ≤ 126 := by
  simpa [isGraph, UInt8.le_iff_toNat_le] using h

theorem isSpace_of_isGraph {b : UInt8} (h : isGraph b = true) : isSpace b = false := by
  have hb := isGraph_toNat h
  have h32 : b ≠ 32 := by rintro rfl; simp at hb
  simp only [isSpace, beq_eq_false_iff_ne.mpr h32, Bool.false_or, Bool.and_eq_false_iff,
    decide_eq_false_iff_not, UInt8.le_iff_toNat_le, UInt8.toNat_ofNat]
  omega

theorem isCntrl_of_isGraph {b : UInt8} (h : isGraph b = true) : isCntrl b = false := by
  have hb := isGraph_toNat h
  have h127 : b ≠ 127 := by rintro rfl; simp at hb
  simp only [isCntrl, beq_eq_false_iff_ne.mpr h127, Bool.or_false, decide_eq_false_iff_not,
    UInt8.lt_iff_toNat_lt, UInt8.toNat_ofNat]
  omega

theorem ne_zero_of_isGraph {b : UInt8} (h : isGraph b = true) : b ≠ 0 := by
  rintro rfl
  exact absurd h (by decide)

theorem isWord_of_graphic (hne : word ≠ []) (h : ∀ b ∈ word, isGraph b = true) : IsWord word where
  ne_nil := hne
  not_space b hb := isSpace_of_isGraph (h b hb)
  not_zero b hb := ne_zero_of_isGraph (h b hb)

theorem tokenKey_graphic {key : Bytes} (hne : key ≠ []) (hl : key.length ≤ 240)
    (h : ∀ b ∈ key, isGraph b = true) : tokenKey key = some key := by
  have hblanks : key.takeWhile isSpace = [] := by
    cases key with
    | nil => rfl
    | cons b key =>
      exact takeWhile_cons_of_neg (by simp [isSpace_of_isGraph (h b mem_cons_self)])
  have hword : (key.takeWhile fun b => b != 0 && !isSpace b && !isCntrl b) = key :=
    takeWhile_eq_self_iff.mpr fun b hb => by
      simp [isSpace_of_isGraph (h b hb), isCntrl_of_isGraph (h b hb), ne_zero_of_isGraph (h b hb)]
  have hpos := length_pos_iff.mpr hne
  have hmod : key.length % 2 ^ 16 = key.length := Nat.mod_eq_of_lt (by omega)
  have hend : key.getD key.length 0 = 0 := by simp
  have hparse : parseAsciiKey key = (0, key.length) := by
    simp only [parseAsciiKey, hblanks, length_nil, drop_zero, hword, Nat.zero_add, hend, hmod]
    refine congrArg (Prod.mk 0) (if_neg ?_)
    rintro (h0 | h240 | hc)
    · omega
    · omega
    · exact hc.1 rfl
  simp only [tokenKey, hparse]
  rw [if_neg (by omega), slice, drop_zero, take_length]

/-- Words that are separated by one blank, in front of the line feed of a line that ends in two
bytes. -/
def textLine : List Bytes → Bytes
  | [] => []
  | [word] => word ++ [13]
  | word :: words => word ++ 32 :: textLine words

section Words

variable {blanks word : Bytes} (hblanks : ∀ b ∈ blanks, isSpace b = true) (hne : word ≠ [])
  (hword : ∀ b ∈ word, isSpace b = false)
include hblanks hne hword

theorem blanks_word (rest : Bytes) : (blanks ++ (word ++ rest)).takeWhile isSpace = blanks ∧
    (blanks ++ (word ++ rest)).dropWhile isSpace = word ++ rest := by
  cases word with
  | nil => exact absurd rfl hne
  | cons b word =>
    have hb : ¬isSpace b = true := by simp [hword b mem_cons_self]
    rw [takeWhile_append_of_pos hblanks, dropWhile_append_of_pos hblanks, cons_append,
      takeWhile_cons_of_neg hb, dropWhile_cons_of_neg hb, append_nil]
    exact ⟨rfl, rfl⟩

omit hblanks hne in
theorem word_rest {b : UInt8} (hb : isSpace b = true) (rest : Bytes) :
    (word ++ b :: rest).takeWhile (!isSpace ·) = word ∧
      (word ++ b :: rest).dropWhile (!isSpace ·) = b :: rest := by
  rw [takeWhile_append_of_pos fun c hc => by simp [hword c hc],
    dropWhile_append_of_pos fun c hc => by simp [hword c hc],
    takeWhile_cons_of_neg (by simp [hb]), dropWhile_cons_of_neg (by simp [hb]), append_nil]
  exact ⟨rfl, rfl⟩

omit hblanks hne in
theorem word_end : word.takeWhile (!isSpace ·) = word ∧ word.dropWhile (!isSpace ·) = [] :=
  ⟨takeWhile_eq_self_iff.mpr fun c hc => by simp [hword c hc],
    dropWhile_eq_nil_iff.mpr fun c hc => by simp [hword c hc]⟩

theorem tokenizeLoop_word {b : UInt8} (hb : isSpace b = true) (rest : Bytes) (fuel size : Nat) :
    tokenizeLoop (fuel + 1) (size + 1) (blanks ++ (word ++ b :: rest)) =
      (word :: (tokenizeLoop fuel size rest).1, blanks ++ word ++ 0 :: (tokenizeLoop fuel size rest).2) := by
  obtain ⟨htake, hdrop⟩ := blanks_word hblanks hne hword (b :: rest)
  obtain ⟨hw, hafter⟩ := word_rest hword hb rest
  have hnil : word ++ b :: rest ≠ [] := by simp
  simp only [tokenizeLoop, htake, hdrop, hw, hafter, if_neg hnil]

theorem tokenizeLoop_last (fuel size : Nat) :
    tokenizeLoop (fuel + 1) (size + 1) (blanks ++ word) = ([word], blanks ++ word ++ [0]) := by
  obtain ⟨htake, hdrop⟩ := blanks_word hblanks hne hword []
  rw [append_nil] at htake hdrop
  obtain ⟨hw, hafter⟩ := word_end hword
  simp only [tokenizeLoop, htake, hdrop, hw, hafter, if_neg hne]

end Words

theorem tokenizeLoop_blank {rest : Bytes} (h : ∀ b ∈ rest, isSpace b = true) (fuel size : Nat) :
    tokenizeLoop (fuel + 1) (size + 1) rest = ([], rest ++ [10]) := by
  have htake : rest.takeWhile isSpace = rest := takeWhile_eq_self_iff.mpr h
  have hdrop : rest.dropWhile isSpace = [] := dropWhile_eq_nil_iff.mpr h
  simp only [tokenizeLoop, htake, hdrop, if_true]

theorem split_blanks {l : Bytes} (h : ¬∀ b ∈ l, isSpace b = true) :
    ∃ blanks b rest, l = blanks ++ b :: rest ∧ (∀ b ∈ blanks, isSpace b = true) ∧ isSpace b = false := by
  induction l with
  | nil => exact absurd (fun b hb => nomatch hb) h
  | cons a l ih =>
    by_cases ha : isSpace a = true
    · have hl : ¬∀ b ∈ l, isSpace b = true := fun hl => h fun b hb => by
        rcases mem_cons.mp hb with rfl | hb
        · exact ha
        · exact hl b hb
      obtain ⟨blanks, b, rest, rfl, hblanks, hb⟩ := ih hl
      refine ⟨a :: blanks, b, rest, rfl, fun c hc => ?_, hb⟩
      rcases mem_cons.mp hc with rfl | hc
      · exact ha
      · exact hblanks c hc
    · exact ⟨[], a, l, rfl, fun b hb => (nomatch hb), Bool.not_eq_true _ ▸ ha⟩

theorem line_cases (rest : Bytes) :
    (∀ b ∈ rest, isSpace b = true) ∨ ∃ blanks word, (∀ b ∈ blanks, isSpace b = true) ∧ word ≠ [] ∧
      (∀ b ∈ word, isSpace b = false) ∧
      (rest = blanks ++ word ∨ ∃ b tail, isSpace b = true ∧ rest = blanks ++ (word ++ b :: tail)) := by
  by_cases hblank : ∀ b ∈ rest, isSpace b = true
  · exact .inl hblank
  · obtain ⟨blanks, a, after, rfl, hblanks, ha⟩ := split_blanks hblank
    refine .inr ⟨blanks, (a :: after).takeWhile (!isSpace ·), hblanks, ?_, ?_, ?_⟩
    · rw [takeWhile_cons_of_pos (by simp [ha])]
      exact cons_ne_nil _ _
    · intro b hb
      simpa using mem_takeWhile_imp hb
    · have hsplit := (takeWhile_append_dropWhile (p := (!isSpace ·)) (l := a :: after)).symm
      cases hdrop : (a :: after).dropWhile (!isSpace ·) with
      | nil =>
        rw [hdrop, append_nil] at hsplit
        exact .inl (congrArg _ hsplit)
      | cons b tail =>
        rw [hdrop] at hsplit
        have hcons : (a :: after).dropWhile (!isSpace ·) ≠ [] := by
          rw [hdrop]
          exact cons_ne_nil _ _
        have hb := head_dropWhile_not (!isSpace ·) hcons
        refine .inr ⟨b, tail, ?_, congrArg _ hsplit⟩
        simpa [hdrop] using hb

/-- The words of a line are its tokens. -/
theorem tokenizeLoop_textLine (h : ∀ word ∈ words, IsWord word) {fuel size : Nat} (hf : words.length ≤ fuel)
    (hs : words.length ≤ size) : (tokenizeLoop fuel size (textLine words)).1 = words := by
  induction words generalizing fuel size with
  | nil =>
    cases fuel with
    | zero => rfl
    | succ fuel =>
      cases size with
      | zero => rfl
      | succ size => rfl
  | cons word words ih =>
    obtain ⟨fuel, rfl⟩ : ∃ n, fuel = n + 1 := ⟨fuel - 1, by simp at hf; omega⟩
    obtain ⟨size, rfl⟩ : ∃ n, size = n + 1 := ⟨size - 1, by simp at hs; omega⟩
    have hw := h word mem_cons_self
    have ih' := ih (fun w hm => h w (mem_cons_of_mem _ hm)) (by simpa using hf) (by simpa using hs)
    have hloop {b : UInt8} (hb : isSpace b = true) (rest : Bytes) :
        (tokenizeLoop (fuel + 1) (size + 1) (word ++ b :: rest)).1 =
          word :: (tokenizeLoop fuel size rest).1 :=
      congrArg Prod.fst (@tokenizeLoop_word [] word (by simp) hw.ne_nil hw.not_space b hb rest fuel size)
    cases words with
    | nil => rw [textLine, hloop (by decide)]; exact congrArg _ ih'
    | cons w words => rw [textLine, hloop (by decide), ih']; exact cons_ne_nil _ _

theorem length_textLine_ge (words : List Bytes) : words.length ≤ (textLine words).length := by
  induction words with
  | nil => rfl
  | cons word words ih =>
    cases words with
    | nil => simp [textLine]
    | cons w words => simp [textLine] at ih ⊢; omega

theorem asciiTokenizeCommand_textLine (h : ∀ word ∈ words, IsWord word) (hl : words.length ≤ maxTokens) :
    (asciiTokenizeCommand (textLine words)).1 = words := by
  have hwords : (tokenizeLoop ((textLine words).length + 1) maxTokens (textLine words)).1 = words :=
    tokenizeLoop_textLine h (Nat.le_succ_of_le (length_textLine_ge words)) hl
  rw [asciiTokenizeCommand, hwords, map_congr_left (g := id) fun w hw => (h w hw).cString, map_id]

theorem length_textLine_le {words : List Bytes} :
    (textLine words).length ≤ (words.map fun word => word.length + 1).sum := by
  induction words with
  | nil => simp [textLine]
  | cons word words ih =>
    cases words with
    | nil => simp [textLine]
    | cons w words =>
      rw [textLine, map_cons, sum_cons, length_append, length_cons]
      · omega
      · exact cons_ne_nil _ _

theorem not_mem_textLine (h : ∀ word ∈ words, IsWord word) : (10 : UInt8) ∉ textLine words := by
  have hword {word : Bytes} (hw : IsWord word) : (10 : UInt8) ∉ word := fun hm =>
    absurd (hw.not_space 10 hm) (by decide)
  induction words with
  | nil => exact not_mem_nil
  | cons word words ih =>
    have hw := hword (h word mem_cons_self)
    have ih' := ih fun w hm => h w (mem_cons_of_mem _ hm)
    cases words with
    | nil => simp [textLine, hw]
    | cons w words =>
      rw [textLine, mem_append, mem_cons]
      · rintro (hm | hm | hm)
        · exact hw hm
        · exact absurd hm (by decide)
        · exact ih' hm
      · exact cons_ne_nil _ _

theorem length_tokenizeLoop (fuel size : Nat) (rest : Bytes) :
    (tokenizeLoop fuel size rest).2.length = rest.length + 1 := by
  induction fuel generalizing size rest with
  | zero => simp [tokenizeLoop]
  | succ fuel ih =>
    cases size with
    | zero => simp [tokenizeLoop]
    | succ size =>
      have h1 := congrArg List.length (takeWhile_append_dropWhile (p := isSpace) (l := rest))
      rw [tokenizeLoop]
      generalize rest.dropWhile isSpace = rest' at h1 ⊢
      have h2 := congrArg List.length (takeWhile_append_dropWhile (p := (!isSpace ·)) (l := rest'))
      rw [length_append] at h1 h2
      split
      · rename_i hnil
        rw [hnil, length_nil] at h1
        simp only [length_append, length_cons, length_nil]
        omega
      · split
        · rename_i hnil
          rw [hnil, length_nil] at h2
          simp only [length_append, length_cons, length_nil]
          omega
        · rename_i b tail htail
          rw [htail, length_cons] at h2
          simp only [length_append, length_cons, ih]
          omega

/-! ## One round -/

theorem asciiRound_command (I : Interface σ) {line after : Bytes} {command : AsciiCmd} {tokens : List Bytes}
    (s : Serving σ) (hcmd : asciiToCmd ((line ++ 10 :: after).take length) = command)
    (hget : ¬(command = .get ∨ command = .gets)) (htok : (asciiTokenizeCommand line).1 = tokens)
    (hne : tokens ≠ []) :
    ((asciiRound I (line ++ 10 :: after) line.length length s).1,
        (asciiRound I (line ++ 10 :: after) line.length length s).2.2) =
      processCommand I (dropNoreply tokens) (asciiTokenizeCommand line).2 after length
        (setMute tokens { s with asciiCommand := command }) := by
  have hafter : (line ++ 10 :: after).drop (line.length + 1) = after := by
    rw [drop_append, drop_eq_nil_of_le (by omega)]
    simp
  have hline : (line ++ 10 :: after).take line.length = line := take_left
  simp only [asciiRound, hcmd, if_neg hget, hline, hafter, htok, if_neg hne]

/-- The input is one command, whose round ends in `s'`. -/
def OneCommand (I : Interface σ) (buffer : Bytes) (length : Nat) (s s' : Serving σ) : Prop :=
  ∃ end_ taken line, (buffer.take length).idxOf? 10 = some end_ ∧
    asciiRound I buffer end_ length s = (.done taken, line, s') ∧ end_ + 1 + taken = length

theorem oneCommand_of_round {taken : Nat} {s s' : Serving σ}
    (hend : (buffer.take length).idxOf? 10 = some end_)
    (hround : ((asciiRound I buffer end_ length s).1, (asciiRound I buffer end_ length s).2.2) = (.done taken, s'))
    (htaken : end_ + 1 + taken = length) : OneCommand I buffer length s s' := by
  obtain ⟨hprogress, hserving⟩ := Prod.mk.inj hround
  refine ⟨end_, taken, (asciiRound I buffer end_ length s).2.1, hend, ?_, htaken⟩
  rw [← hprogress, ← hserving]

theorem OneCommand.processData {s s' : Serving σ} (h : OneCommand I buffer length s s') :
    (asciiProcessData I buffer length s).event = .read ∧
      (asciiProcessData I buffer length s).length = 0 ∧ (asciiProcessData I buffer length s).serving = s' := by
  obtain ⟨end_, taken, line, hend, hround, htaken⟩ := h
  have hzero : length - (end_ + 1 + taken) = 0 := by omega
  simp [asciiProcessData, asciiLoop, hend, hround, hzero]

end LM
