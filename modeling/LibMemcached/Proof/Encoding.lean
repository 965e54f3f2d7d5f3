import LibMemcached.Impl.Hosts
import LibMemcached.Impl.Response

/-!
# Numbers on the wire

Numbers in network byte order (`bigEndian`, `toBigEndian`) and in decimal (`spaced`, `strtoull`) can
be read back from the bytes that were written.
-/

namespace LM

open List

variable {n : Nat} {rest digits : Bytes} {b : UInt8}

theorem forall_byte {P : UInt8 → Prop} (h : ∀ n < 256, P (.ofNat n)) (b : UInt8) : P b := by
  have hb := h b.toNat b.toNat_lt
  rwa [UInt8.ofNat_toNat] at hb

theorem bigEndian_cons (b : UInt8) (bytes : Bytes) :
    bigEndian (b :: bytes) = b.toNat * 256 ^ bytes.length + bigEndian bytes := by
  suffices ∀ (bytes : Bytes) (n : Nat), bytes.foldl (fun n b => 256 * n + b.toNat) n =
      n * 256 ^ bytes.length + bigEndian bytes by
    rw [bigEndian, foldl_cons, this, Nat.mul_zero, Nat.zero_add]
  intro bytes
  induction bytes with
  | nil => intro n; simp [bigEndian]
  | cons b bytes ih =>
    intro n
    rw [bigEndian, foldl_cons, foldl_cons, ih, ih (256 * 0 + b.toNat), length_cons,
      Nat.pow_succ, Nat.add_mul, Nat.add_mul, Nat.mul_comm 256 n, Nat.mul_assoc,
      Nat.mul_comm 256 (256 ^ _)]
    omega

theorem bigEndian_lt (bytes : Bytes) : bigEndian bytes < 256 ^ bytes.length := by
  induction bytes with
  | nil => decide
  | cons b bytes ih =>
    rw [bigEndian_cons, length_cons, Nat.pow_succ]
    have hb : b.toNat * 256 ^ bytes.length ≤ 255 * 256 ^ bytes.length :=
      Nat.mul_le_mul_right _ (Nat.le_of_lt_succ b.toNat_lt)
    omega

@[simp] theorem length_toBigEndian (width : Nat) : (toBigEndian width n).length = width := by
  simp [toBigEndian]

theorem toBigEndian_succ (width n : Nat) :
    toBigEndian (width + 1) n = UInt8.ofNat (n / 256 ^ width % 256) :: toBigEndian width n := by
  simp [toBigEndian, range_succ]

theorem bigEndian_toBigEndian (width n : Nat) : bigEndian (toBigEndian width n) = n % 256 ^ width := by
  induction width with
  | zero => simp [toBigEndian, bigEndian, Nat.mod_one]
  | succ width ih =>
    rw [toBigEndian_succ, bigEndian_cons, ih, length_toBigEndian, Nat.mod_pow_succ, UInt8.toNat_ofNat',
      Nat.mod_eq_of_lt (Nat.mod_lt _ (by decide)), Nat.mul_comm, Nat.add_comm]

theorem bigEndian_toBigEndian_of_lt {width : Nat} (h : n < 256 ^ width) :
    bigEndian (toBigEndian width n) = n := by
  rw [bigEndian_toBigEndian, Nat.mod_eq_of_lt h]

/-! ## Decimal numbers -/

theorem ascii_append (a b : String) : ascii (a ++ b) = ascii a ++ ascii b := by
  simp [ascii]

theorem ascii_toString (n : Nat) : ascii (toString n) = decimal n := by
  rw [ascii, decimal, show toString n = n.repr from rfl, Nat.repr_eq_ofList_toDigits,
    String.toList_ofList]

theorem spaced_natCast (n : Nat) : spaced n = 32 :: decimal n := by
  rw [spaced, ascii_append, show toString (n : Int) = toString n from rfl, ascii_toString]
  rfl

theorem decimal_ne_nil (n : Nat) : decimal n ≠ [] := by
  simp [decimal, Nat.toDigits_ne_nil]

theorem length_decimal_le_iff {k : Nat} (hk : 0 < k) : (decimal n).length ≤ k ↔ n < 10 ^ k := by
  rw [decimal, length_map, Nat.length_toDigits_le_iff (by decide) hk]

theorem toNat_toUInt8_of_isDigit {c : Char} (h : c.isDigit) :
    c.toUInt8.toNat = c.toNat ∧ 48 ≤ c.toNat ∧ c.toNat ≤ 57 := by
  simp only [Char.isDigit, Bool.and_eq_true, decide_eq_true_eq, ge_iff_le, UInt32.le_iff_toNat_le] at h
  have h1 : 48 ≤ c.toNat := h.1
  have h2 : c.toNat ≤ 57 := h.2
  refine ⟨?_, h1, h2⟩
  rw [Char.toUInt8, UInt32.toNat_toUInt8]
  exact Nat.mod_eq_of_lt (show c.toNat < 256 by omega)

theorem isDigit_of_mem_decimal (h : b ∈ decimal n) : isDigit b = true := by
  obtain ⟨c, hc, rfl⟩ := mem_map.mp h
  obtain ⟨h1, h2, h3⟩ :=
    toNat_toUInt8_of_isDigit (Nat.isDigit_of_mem_toDigits (by decide) (by decide) hc)
  rw [isDigit, Bool.and_eq_true, decide_eq_true_eq, decide_eq_true_eq, UInt8.le_iff_toNat_le,
    UInt8.le_iff_toNat_le, h1]
  exact ⟨h2, h3⟩

theorem not_mem_decimal (hb : isDigit b = false) : b ∉ decimal n :=
  fun hm => absurd (isDigit_of_mem_decimal hm) (by simp [hb])

theorem digitsValue_decimal (n : Nat) : digitsValue (decimal n) = n := by
  have h : digitsValue (decimal n) = Nat.ofDigitChars 10 (Nat.toDigits 10 n) 0 := by
    rw [digitsValue, decimal, foldl_map, Nat.ofDigitChars_eq_foldl]
    refine foldl_ext _ _ _ fun m c hc => ?_
    rw [(toNat_toUInt8_of_isDigit (Nat.isDigit_of_mem_toDigits (by decide) (by decide) hc)).1]
    rfl
  rw [h, Nat.ofDigitChars_toDigits (by decide) (by decide)]

/-- A byte that ends a number. -/
def EndsNumber (rest : Bytes) : Prop := rest.head?.all (!isDigit ·)

theorem takeWhile_digits (hd : ∀ b ∈ digits, isDigit b = true) (h : EndsNumber rest) :
    (digits ++ rest).takeWhile isDigit = digits := by
  rw [takeWhile_append_of_pos hd]
  cases rest with
  | nil => simp
  | cons b rest =>
    have hb : isDigit b = false := by simpa [EndsNumber] using h
    simp [hb]

theorem takeWhile_decimal (h : EndsNumber rest) : (decimal n ++ rest).takeWhile isDigit = decimal n :=
  takeWhile_digits (fun _ hb => isDigit_of_mem_decimal hb) h

theorem decimal_head (n : Nat) : ∃ b rest, decimal n = b :: rest ∧ isDigit b = true := by
  cases h : decimal n with
  | nil => exact absurd h (decimal_ne_nil n)
  | cons b digits => exact ⟨b, digits, rfl, isDigit_of_mem_decimal (h ▸ mem_cons_self)⟩

theorem isSpace_of_isDigit (h : isDigit b = true) : isSpace b = false := by
  simp only [isDigit, Bool.and_eq_true, decide_eq_true_eq, UInt8.le_iff_toNat_le,
    UInt8.toNat_ofNat] at h
  have h32 : b ≠ 32 := by rintro rfl; simp at h
  simp only [isSpace, beq_eq_false_iff_ne.mpr h32, Bool.false_or, Bool.and_eq_false_iff,
    decide_eq_false_iff_not, UInt8.le_iff_toNat_le, UInt8.toNat_ofNat]
  omega

theorem scanNumber_digits (hne : digits ≠ []) (hd : ∀ b ∈ digits, isDigit b = true) (h : EndsNumber rest) :
    scanNumber (digits ++ rest) = (false, digits, digits.length) := by
  obtain ⟨b, more, rfl⟩ := exists_cons_of_ne_nil hne
  have hb := hd b mem_cons_self
  have hspace : (b :: more ++ rest).takeWhile isSpace = [] := by
    rw [cons_append, takeWhile_cons_of_neg (by simp [isSpace_of_isDigit hb])]
  have hsign : b ≠ 45 ∧ b ≠ 43 := by
    constructor <;> (rintro rfl; revert hb; decide)
  have hscan : scanNumber (b :: more ++ rest) = (false, (b :: more ++ rest).takeWhile isDigit,
        if (b :: more ++ rest).takeWhile isDigit = [] then 0
        else 0 + 0 + ((b :: more ++ rest).takeWhile isDigit).length) := by
    rw [scanNumber, hspace, length_nil, drop_zero, cons_append]
    split
    rename_i heq
    split at heq
    · rename_i h; exact absurd (List.cons.inj h).1 hsign.1
    · rename_i h; exact absurd (List.cons.inj h).1 hsign.2
    · cases heq; rfl
  rw [hscan, takeWhile_digits hd h, if_neg hne, Nat.add_zero, Nat.zero_add]

theorem scanNumber_decimal (h : EndsNumber rest) :
    scanNumber (decimal n ++ rest) = (false, decimal n, (decimal n).length) :=
  scanNumber_digits (decimal_ne_nil n) (fun _ hb => isDigit_of_mem_decimal hb) h

theorem scanNumber_negative (h : EndsNumber rest) :
    scanNumber (45 :: (decimal n ++ rest)) = (true, decimal n, (decimal n).length + 1) := by
  rw [scanNumber]
  simp only [takeWhile_cons_of_neg (show ¬isSpace 45 = true by decide), length_nil,
    drop_zero, takeWhile_decimal h, if_neg (decimal_ne_nil n)]
  rw [Nat.zero_add, Nat.add_comm]

theorem strtoull_lt {text : Bytes} : (strtoull text).1 < 2 ^ 64 := by
  simp only [strtoull]
  split
  · exact (by decide : 2 ^ 64 - 1 < 2 ^ 64)
  · split
    · exact Nat.mod_lt _ (by decide)
    · simp only
      omega

theorem strtoull_digits (hne : digits ≠ []) (hd : ∀ b ∈ digits, isDigit b = true)
    (hlt : digitsValue digits < 2 ^ 64) (h : EndsNumber rest) :
    strtoull (digits ++ rest) = (digitsValue digits, digits.length, false) := by
  rw [strtoull, scanNumber_digits hne hd h]
  simp only [if_neg (Nat.not_le_of_lt hlt), Bool.false_eq_true, if_false]

theorem strtoull_decimal (hn : n < 2 ^ 64) (h : EndsNumber rest) :
    strtoull (decimal n ++ rest) = (n, (decimal n).length, false) := by
  have hlt : digitsValue (decimal n) < 2 ^ 64 := by rwa [digitsValue_decimal]
  rw [strtoull_digits (decimal_ne_nil n) (fun _ hb => isDigit_of_mem_decimal hb) hlt h, digitsValue_decimal]

theorem strtoull_decimal_nil (hn : n < 2 ^ 64) : strtoull (decimal n) = (n, (decimal n).length, false) := by
  have h := strtoull_decimal hn (by simp [EndsNumber] : EndsNumber [])
  rwa [append_nil] at h

theorem strtoull_negative (hn : n < 2 ^ 64) (h : EndsNumber rest) :
    strtoull (45 :: (decimal n ++ rest)) = ((2 ^ 64 - n) % 2 ^ 64, (decimal n).length + 1, false) := by
  rw [strtoull, scanNumber_negative h]
  simp only [digitsValue_decimal, if_neg (Nat.not_le_of_lt hn), if_true]

end LM
