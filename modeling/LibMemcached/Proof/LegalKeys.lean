import LibMemcached.Proof.TextCommands

/-!
# The keys that the scanner takes

`parse_ascii_key` counts the characters of a key in 16 bits, and the buffer holds more of them. A run of
65536 characters and a legal key's is taken for a key of the length that is left (`parse_exact_iff`).
-/

namespace LM

open List

/-- A text in the input buffer: white space, the characters of the key, and the character that ends it. -/
structure KeyText where
  blanks : Bytes
  run : Bytes
  stop : UInt8
  rest : Bytes
  isSpace_blanks : ∀ b ∈ blanks, isSpace b = true
  keyByte_run : ∀ b ∈ run, keyByte b = true
  keyByte_stop : keyByte stop = false
  isSpace_stop : run = [] → isSpace stop = false
  fits : (blanks ++ (run ++ stop :: rest)).length ≤ 1024 * 1024

namespace KeyText

variable (t : KeyText)

def text : Bytes := t.blanks ++ (t.run ++ t.stop :: t.rest)

/-- What ends a key. -/
def Ended : Prop := t.stop = 0 ∨ t.stop = 13 ∨ t.stop = 32

instance : Decidable t.Ended := inferInstanceAs (Decidable (_ ∨ _ ∨ _))

/-- The white space is skipped, and the length of a legal key is returned, and otherwise 0. -/
def Exact : Prop :=
  (parseAsciiKeyCounter t.text).1 = t.run ++ t.stop :: t.rest ∧
    (parseAsciiKeyCounter t.text).2.toNat =
      if 1 ≤ t.run.length ∧ t.run.length ≤ 240 ∧ t.Ended then t.run.length else 0

end KeyText

theorem scanKey_eq (mem : Bytes) (len : UInt16) :
    scanKey mem len = (mem.dropWhile keyByte, len + .ofNat (mem.takeWhile keyByte).length) := by
  induction mem generalizing len with
  | nil => simp [scanKey]
  | cons b mem ih =>
    have hcons : scanKey (b :: mem) len = if keyByte b then scanKey mem (len + 1) else (b :: mem, len) := rfl
    rw [hcons]
    by_cases hb : keyByte b = true
    · rw [if_pos hb, ih, dropWhile_cons_of_pos hb, takeWhile_cons_of_pos hb, length_cons, UInt16.ofNat_add,
        UInt16.add_comm (.ofNat _), ← UInt16.add_assoc]
      rfl
    · rw [if_neg hb, dropWhile_cons_of_neg hb, takeWhile_cons_of_neg hb]
      simp

theorem toNat_counted (n : Nat) (q : Prop) [Decidable q] :
    (if UInt16.ofNat n = 0 ∨ 240 < UInt16.ofNat n ∨ q then 0 else UInt16.ofNat n).toNat =
      if n % 2 ^ 16 = 0 ∨ 240 < n % 2 ^ 16 ∨ q then 0 else n % 2 ^ 16 := by
  have hlen : (UInt16.ofNat n).toNat = n % 2 ^ 16 := UInt16.toNat_ofNat
  have hzero : UInt16.ofNat n = 0 ↔ n % 2 ^ 16 = 0 := by
    rw [← UInt16.toNat_inj, hlen]
    rfl
  have hlong : 240 < UInt16.ofNat n ↔ 240 < n % 2 ^ 16 := by
    rw [UInt16.lt_iff_toNat_lt, hlen]
    rfl
  simp only [hzero, hlong, apply_ite UInt16.toNat, hlen]
  rfl

/-- The counter is what the model of the handlers has. -/
theorem parseAsciiKey_eq_counter (mem : Bytes) :
    parseAsciiKey mem = ((mem.takeWhile isSpace).length, (parseAsciiKeyCounter mem).2.toNat) := by
  have hdrop (p : UInt8 → Bool) (mem : Bytes) : mem.drop (mem.takeWhile p).length = mem.dropWhile p := by
    induction mem with
    | nil => rfl
    | cons b mem ih => by_cases hb : p b = true <;> simp [hb, ih]
  have hword : (mem.dropWhile isSpace).takeWhile (fun b => b != 0 && !isSpace b && !isCntrl b) =
      (mem.dropWhile isSpace).takeWhile keyByte := rfl
  have hnext (n : Nat) : mem.getD ((mem.takeWhile isSpace).length + n) 0 = ((mem.dropWhile isSpace).drop n).headD 0 := by
    rw [← hdrop, drop_drop, headD_eq_head?_getD, List.head?_drop, getD_eq_getElem?_getD]
  simp only [parseAsciiKey, parseAsciiKeyCounter, scanKey_eq, hdrop, hword, hnext, UInt16.zero_add, toNat_counted]

/-- What ends a key is the end of the text, of the line, or a space. -/
theorem ended_iff {stop : UInt8} (h : keyByte stop = false) :
    ¬(stop ≠ 0 ∧ stop ≠ 13 ∧ isCntrl stop = true) ↔ stop = 0 ∨ stop = 13 ∨ stop = 32 :=
  forall_byte (P := fun stop => keyByte stop = false →
    (¬(stop ≠ 0 ∧ stop ≠ 13 ∧ isCntrl stop = true) ↔ stop = 0 ∨ stop = 13 ∨ stop = 32)) (by decide +kernel) stop h

theorem parseAsciiKeyCounter_text (t : KeyText) :
    (parseAsciiKeyCounter t.text).1 = t.run ++ t.stop :: t.rest ∧ (parseAsciiKeyCounter t.text).2.toNat =
        if 1 ≤ t.run.length % 2 ^ 16 ∧ t.run.length % 2 ^ 16 ≤ 240 ∧ t.Ended then t.run.length % 2 ^ 16 else 0 := by
  have hskip : t.text.dropWhile isSpace = t.run ++ t.stop :: t.rest := by
    rw [KeyText.text, dropWhile_append_of_pos t.isSpace_blanks]
    cases hrun : t.run with
    | nil => simp [t.isSpace_stop hrun]
    | cons b run =>
      have hb : keyByte b = true := t.keyByte_run b (hrun ▸ mem_cons_self)
      simp only [keyByte, Bool.and_eq_true, Bool.not_eq_true'] at hb
      simp [hb.1.2]
  have hscan : scanKey (t.run ++ t.stop :: t.rest) 0 = (t.stop :: t.rest, .ofNat t.run.length) := by
    rw [scanKey_eq, dropWhile_append_of_pos t.keyByte_run, takeWhile_append_of_pos t.keyByte_run]
    simp [t.keyByte_stop]
  have hended : ¬_ ↔ t.Ended := ended_iff t.keyByte_stop
  simp only [parseAsciiKeyCounter, hskip, hscan, headD_cons, toNat_counted, true_and]
  by_cases hlegal : 1 ≤ t.run.length % 2 ^ 16 ∧ t.run.length % 2 ^ 16 ≤ 240 ∧ t.Ended
  · have hstop := hended.mpr hlegal.2.2
    rw [if_pos hlegal, if_neg]
    rintro (h | h | h)
    · omega
    · omega
    · exact hstop h
  · rw [if_neg hlegal, if_pos]
    by_contra hno
    push Not at hno
    exact hlegal ⟨by omega, by omega, hended.mp (by tauto)⟩

/-- Just the legal keys are taken, but for runs that the counter takes for shorter ones. -/
theorem parse_exact_iff (t : KeyText) :
    t.Exact ↔ ¬(2 ^ 16 ≤ t.run.length ∧ 1 ≤ t.run.length % 2 ^ 16 ∧ t.run.length % 2 ^ 16 ≤ 240 ∧ t.Ended) := by
  obtain ⟨hstart, hlen⟩ := parseAsciiKeyCounter_text t
  rw [KeyText.Exact, hlen]
  by_cases hended : t.Ended
  · simp only [hended, hstart, and_true, true_and]
    split <;> split <;> omega
  · simp [hended, hstart]

/-- A run of 65537 characters is taken for a key of one. -/
theorem parse_exact_fails : ∃ t : KeyText, ¬t.Exact := by
  obtain ⟨n, hn⟩ : ∃ n, n = 65537 := ⟨_, rfl⟩
  refine ⟨⟨[], List.replicate n 97, 0, [], by simp, fun b hb => ?_, rfl, fun _ => rfl, ?_⟩, fun h => ?_⟩
  · rw [eq_of_mem_replicate hb]
    rfl
  · simp only [nil_append, length_append, length_replicate, length_singleton]
    omega
  · have hlen := (parseAsciiKeyCounter_text _).2.symm.trans h.2
    simp only [length_replicate] at hlen
    rw [if_pos ⟨by omega, by omega, .inl rfl⟩, if_neg (by omega)] at hlen
    omega

end LM
