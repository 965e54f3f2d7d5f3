import LibMemcached.Impl.Stats
import LibMemcached.Proof.TextStorage

/-!
# Statistics that are stored and read back

In the form a server sends it, a statistic is stored and leaves those of other names alone (`setData_usual`). What
is read back is what was stored, but for a usage entry: its microseconds are printed without the zeros in front, so
the text comes back only if there are none (`stat_round_trip_iff`).
-/

namespace LM

open List

variable {d : UInt8} {n : Nat} {rest : Bytes}

namespace StatSt

/-- The form in which a server sends a statistic. -/
inductive Usual : StatName → Bytes → Prop
  | pid {n : Nat} (h : n < 2 ^ 31) : Usual .pid (decimal n)
  | version {text : Bytes} (h : text.length ≤ 23) : Usual .version text
  | rusage {who : Usage} {seconds : Nat} {micro : Bytes} (h : seconds < 2 ^ 64) (hlength : micro.length = 6)
    (hdigits : ∀ b ∈ micro, isDigit b = true) : Usual (.rusage who) (decimal seconds ++ 46 :: micro)
  | counter {c : Counter} {n : Nat} (h : n < 2 ^ 64) : Usual (.counter c) (decimal n)

/-- The six digits of the microseconds start with a zero. -/
def Padded (name : StatName) (value : Bytes) : Prop := ∃ who, name = .rusage who ∧ value[value.length - 6]? = some 48

variable {s : StatSt} {name other : StatName} {value : Bytes}

theorem lookup_setOrder (name : StatName) :
    StatName.lookup StatName.setOrder (ascii name.text) = some name ∧ ¬(ascii name.text).length < 1 := by
  cases name with
  | pid | version => decide +kernel
  | rusage who => cases who <;> decide +kernel
  | counter c => cases c <;> decide +kernel

theorem lookup_getOrder (name : StatName) :
    StatName.lookup StatName.getOrder (ascii name.text) = some name := by
  cases name with
  | pid | version => decide +kernel
  | rusage who => cases who <;> decide +kernel
  | counter c => cases c <;> decide +kernel

/-- What storing a statistic does: it can be read back unless it is padded, and the others are as they were. -/
structure Stores (s : StatSt) (name : StatName) (value : Bytes) (t : StatSt) : Prop where
  render : t.render name = value ↔ ¬Padded name value
  length : (t.render name).length < smallStringLen
  other : ∀ other, other ≠ name → t.render other = s.render other

theorem length_decimal_lt (h : n < 2 ^ 64) : (decimal n).length ≤ 20 :=
  (length_decimal_le_iff (by decide)).mpr (Nat.lt_trans h (by decide))

theorem not_padded (h : ∀ who, name ≠ .rusage who) : ¬Padded name value := fun ⟨who, hwho, _⟩ => h who hwho

theorem setData_pid (h : n < 2 ^ 31) : ∃ t, s.setData (ascii StatName.pid.text) (decimal n) =
    some (.success, t) ∧ s.Stores .pid (decimal n) t := by
  have hread : strtol (decimal n) = ((n : Int), (decimal n).length, false) := by
    have hscan := scanNumber_decimal (n := n) (by simp [EndsNumber] : EndsNumber [])
    rw [append_nil] at hscan
    simp only [strtol, hscan, digitsValue_decimal, Bool.false_eq_true, if_false]
    rw [if_neg (by omega)]
  have hmod : (n : Int).bmod (2 ^ 32) = n := Int.bmod_eq_of_le (by omega) (by omega)
  refine ⟨{ s with pid := n }, ?_, ?_⟩
  · rw [setData, if_neg (lookup_setOrder .pid).2, (lookup_setOrder .pid).1]
    simp only [hread, hmod, Bool.false_eq_true, if_false]
    rw [if_pos (by omega)]
  · have htext : ascii (toString (n : Int)) = decimal n := ascii_toString n
    refine ⟨⟨fun _ => not_padded (by simp), fun _ => htext⟩, ?_, fun other hother => ?_⟩
    · show (ascii (toString (n : Int))).length < smallStringLen
      rw [htext]
      exact Nat.lt_of_le_of_lt (length_decimal_lt (Nat.lt_trans h (by decide))) (by decide)
    · cases other with
      | pid => exact absurd rfl hother
      | version | rusage | counter => rfl

theorem setData_version (h : value.length ≤ 23) : ∃ t, s.setData (ascii StatName.version.text) value =
    some (.success, t) ∧ s.Stores .version value t := by
  refine ⟨{ s with version := value }, ?_, ⟨fun _ => not_padded nofun, fun _ => rfl⟩, ?_, fun other hother => ?_⟩
  · rw [setData, if_neg (lookup_setOrder .version).2, (lookup_setOrder .version).1]
    exact if_pos (Nat.lt_succ_of_le h)
  · exact Nat.lt_of_le_of_lt h (by decide)
  · cases other with
    | version => exact absurd rfl hother
    | pid | rusage | counter => rfl

theorem setData_counter {c : Counter} (h : n < 2 ^ 64) :
    ∃ t, s.setData (ascii (StatName.counter c).text) (decimal n) = some (.success, t) ∧
      s.Stores (.counter c) (decimal n) t := by
  have hrender : decimal (UInt64.ofNat n).toNat = decimal n := by rw [UInt64.toNat_ofNat_of_lt' h]
  refine ⟨{ s with counter := Function.update s.counter c (UInt64.ofNat n) }, ?_, ⟨fun _ => not_padded nofun,
    fun _ => ?_⟩, ?_, fun other hother => ?_⟩
  · rw [setData, if_neg (lookup_setOrder (.counter c)).2, (lookup_setOrder (.counter c)).1]
    simp only [readNumber, strtoull_decimal_nil h, Bool.false_eq_true, if_false]
  · simp only [render, Function.update_self, hrender]
  · simp only [render, Function.update_self, hrender]
    exact Nat.lt_of_le_of_lt (length_decimal_lt h) (by decide)
  · cases other with
    | pid | version | rusage => rfl
    | counter c' =>
      simp only [render]
      rw [Function.update_of_ne fun hc => hother (congrArg StatName.counter hc)]

/-! ## Usage entries -/

theorem digitsValue_concat (digits : Bytes) (d : UInt8) :
    digitsValue (digits ++ [d]) = 10 * digitsValue digits + (d.toNat - 48) := by
  simp [digitsValue]

theorem toNat_of_isDigit (h : isDigit d = true) : 48 ≤ d.toNat ∧ d.toNat ≤ 57 := by
  simpa only [isDigit, Bool.and_eq_true, decide_eq_true_eq, UInt8.le_iff_toNat_le, UInt8.toNat_ofNat] using h

theorem decimal_of_digit (h : isDigit d = true) : decimal (d.toNat - 48) = [d] := by
  obtain ⟨h1, h2⟩ := toNat_of_isDigit h
  have hchar : ∀ n < 10, (Nat.digitChar n).toUInt8 = UInt8.ofNat (48 + n) := by decide
  rw [decimal, Nat.toDigits_of_lt_base (by omega), map_singleton, hchar _ (by omega),
    show 48 + (d.toNat - 48) = d.toNat by omega, UInt8.ofNat_toNat]

theorem digitsValue_lt {digits : Bytes} (h : ∀ b ∈ digits, isDigit b = true) :
    digitsValue digits < 10 ^ digits.length := by
  induction digits using List.reverseRecOn with
  | nil => decide
  | append_singleton digits d ih =>
    have hd := toNat_of_isDigit (h d (by simp))
    have hlt := ih fun b hb => h b (by simp [hb])
    rw [digitsValue_concat, length_append, length_singleton, Nat.pow_succ]
    omega

theorem decimal_digitsValue (h : ∀ b ∈ d :: rest, isDigit b = true) (hd : d ≠ 48) :
    0 < digitsValue (d :: rest) ∧ decimal (digitsValue (d :: rest)) = d :: rest := by
  induction rest using List.reverseRecOn with
  | nil =>
    have hdigit := h d mem_cons_self
    have hne : d.toNat ≠ 48 := fun hd' => hd (UInt8.toNat_inj.mp hd')
    have hvalue : digitsValue [d] = d.toNat - 48 := by simp [digitsValue]
    have := toNat_of_isDigit hdigit
    rw [hvalue]
    exact ⟨by omega, decimal_of_digit hdigit⟩
  | append_singleton rest b ih =>
    obtain ⟨hpos, hdecimal⟩ := ih fun b hb => h b (by simp at hb ⊢; tauto)
    have hb : isDigit b = true := h b (by simp)
    have := toNat_of_isDigit hb
    rw [← cons_append, digitsValue_concat]
    refine ⟨by omega, ?_⟩
    rw [decimal, ← Nat.toDigits_append_toDigits (by decide) hpos (by omega), map_append]
    exact congrArg₂ (· ++ ·) hdecimal (decimal_of_digit hb)

/-- The digits of a number that is printed without zeros in front. -/
theorem decimal_digitsValue_iff (h : ∀ b ∈ d :: rest, isDigit b = true) (hrest : rest ≠ []) :
    decimal (digitsValue (d :: rest)) = d :: rest ↔ d ≠ 48 := by
  refine ⟨?_, fun hd => (decimal_digitsValue h hd).2⟩
  rintro heq rfl
  -- a digit less is enough for the value
  have hlt : digitsValue (48 :: rest) < 10 ^ rest.length := by
    show digitsValue rest < 10 ^ rest.length
    exact digitsValue_lt fun b hb => h b (mem_cons_of_mem _ hb)
  have hlength := (length_decimal_le_iff (length_pos_iff.mpr hrest)).mpr hlt
  rw [heq, length_cons] at hlength
  omega

theorem isPunct_of_isDigit {b : UInt8} (h : isDigit b = true) : isPunct b = false := by
  obtain ⟨h1, h2⟩ := toNat_of_isDigit h
  simp only [isPunct, UInt8.le_iff_toNat_le, UInt8.toNat_ofNat, Bool.or_eq_false_iff, Bool.and_eq_false_iff,
    decide_eq_false_iff_not]
  omega

theorem setData_rusage {who : Usage} {seconds : Nat} {micro : Bytes} (h : seconds < 2 ^ 64)
    (hlength : micro.length = 6) (hdigits : ∀ b ∈ micro, isDigit b = true) :
    ∃ t, s.setData (ascii (StatName.rusage who).text) (decimal seconds ++ 46 :: micro) = some (.success, t) ∧
      s.Stores (.rusage who) (decimal seconds ++ 46 :: micro) t := by
  obtain ⟨d, rest, rfl⟩ := exists_cons_of_length_eq_add_one hlength
  have hrest : rest ≠ [] := fun h => by simp [h] at hlength
  have hseconds : ∀ b ∈ decimal seconds, (!isPunct b) = true := fun b hb => by
    simp [isPunct_of_isDigit (isDigit_of_mem_decimal hb)]
  have htake : (decimal seconds ++ 46 :: d :: rest).takeWhile (!isPunct ·) = decimal seconds := by
    rw [takeWhile_append_of_pos hseconds, takeWhile_cons_of_neg (by decide), append_nil]
  have hdrop : (decimal seconds ++ 46 :: d :: rest).dropWhile (!isPunct ·) = 46 :: d :: rest := by
    rw [dropWhile_append_of_pos hseconds, dropWhile_cons_of_neg (by decide)]
  have hvalue : digitsValue (d :: rest) < 2 ^ 64 := by
    have := digitsValue_lt hdigits
    rw [hlength] at this
    omega
  have hmicro : readNumber (d :: rest) = (UInt64.ofNat (digitsValue (d :: rest)), false) := by
    have := strtoull_digits (cons_ne_nil d rest) hdigits hvalue (rfl : EndsNumber [])
    rw [append_nil] at this
    rw [readNumber, this]
  have hread : readNumber (decimal seconds) = (UInt64.ofNat seconds, false) := by
    rw [readNumber, strtoull_decimal_nil h]
  let stored := (UInt64.ofNat seconds, UInt64.ofNat (digitsValue (d :: rest)))
  have htext : decimal stored.1.toNat ++ ascii "." ++ decimal stored.2.toNat =
      decimal seconds ++ 46 :: decimal (digitsValue (d :: rest)) := by
    rw [UInt64.toNat_ofNat_of_lt' h, UInt64.toNat_ofNat_of_lt' hvalue, append_assoc]
    rfl
  refine ⟨{ s with rusage := Function.update s.rusage who stored }, ?_, ?_, ?_, fun other hother => ?_⟩
  · rw [setData, if_neg (lookup_setOrder (.rusage who)).2, (lookup_setOrder (.rusage who)).1]
    simp only [hdrop, htake, hread, hmicro, Bool.false_eq_true, if_false, Function.update_idem]
    rfl
  · simp only [render, Function.update_self, htext]
    rw [append_cancel_left_eq, List.cons.injEq, decimal_digitsValue_iff hdigits hrest]
    simp [Padded, hlength]
  · simp only [render, Function.update_self, htext]
    have h1 := length_decimal_lt h
    have h2 := length_decimal_lt hvalue
    simp only [length_append, length_cons, smallStringLen]
    omega
  · cases other with
    | pid | version | counter => rfl
    | rusage who' =>
      simp only [render]
      rw [Function.update_of_ne fun hwho => hother (congrArg StatName.rusage hwho)]

/-! ## Many statistics -/

theorem setData_usual (h : Usual name value) (s : StatSt) :
    ∃ t, s.setData (ascii name.text) value = some (.success, t) ∧ s.Stores name value t := by
  cases h with
  | pid h => exact setData_pid h
  | version h => exact setData_version h
  | rusage h hlength hdigits => exact setData_rusage h hlength hdigits
  | counter h => exact setData_counter h

/-- The statistics as they are sent. -/
def sent (entries : List (StatName × Bytes)) : List (Bytes × Bytes) :=
  entries.map fun e => (ascii e.1.text, e.2)

/-- Statistics in their usual form are all stored, and one that is not among them stays as it was. -/
theorem setAll_usual (name : StatName) {entries : List (StatName × Bytes)} (h : ∀ e ∈ entries, Usual e.1 e.2) (s : StatSt) :
    ∃ t, s.setAll (sent entries) = some t ∧ ((∀ e ∈ entries, e.1 ≠ name) → t.render name = s.render name) := by
  induction entries generalizing s with
  | nil => exact ⟨s, rfl, fun _ => rfl⟩
  | cons e entries ih =>
    obtain ⟨t, ht, hstores⟩ := setData_usual (h e mem_cons_self) s
    obtain ⟨u, hu, hkeep⟩ := ih (fun e he => h e (mem_cons_of_mem _ he)) t
    refine ⟨u, ?_, fun hne => ?_⟩
    · show (s.setData (ascii e.1.text) e.2).bind _ = some u
      rw [ht]
      exact hu
    · rw [hkeep fun e he => hne e (mem_cons_of_mem _ he)]
      exact hstores.other name (hne e mem_cons_self).symm

theorem setAll_append (first second : List (Bytes × Bytes)) (s : StatSt) :
    s.setAll (first ++ second) = (s.setAll first).bind (·.setAll second) := by
  induction first generalizing s with
  | nil => rfl
  | cons e first ih =>
    show (s.setData e.1 e.2).bind _ = ((s.setData e.1 e.2).bind _).bind _
    rw [Option.bind_assoc]
    exact congrArg _ (funext fun r => ih r.2)

theorem getValue_eq_ok_iff (h : (s.render name).length < smallStringLen) :
    s.getValue (ascii name.text) = .ok value ↔ s.render name = value := by
  rw [getValue, lookup_getOrder]
  show (if _ then Except.error ReturnT.failure else Except.ok (s.render name)) = _ ↔ _
  rw [if_neg (Nat.not_le_of_lt h), Except.ok.injEq]

/-- A statistic that is stored among others can be read back exactly if it is not a usage entry with a zero in front
of its microseconds. -/
theorem stat_round_trip_iff {before after : List (StatName × Bytes)} (s : StatSt)
    (hbefore : ∀ e ∈ before, Usual e.1 e.2) (h : Usual name value)
    (hafter : ∀ e ∈ after, Usual e.1 e.2 ∧ e.1 ≠ name) :
    (∃ t, s.setAll (sent (before ++ (name, value) :: after)) = some t ∧
      t.getValue (ascii name.text) = .ok value) ↔ ¬Padded name value := by
  obtain ⟨t, ht, -⟩ := setAll_usual name hbefore s
  obtain ⟨u, hu, hstores⟩ := setData_usual h t
  obtain ⟨v, hv, hkeep⟩ := setAll_usual name (fun e he => (hafter e he).1) u
  have hrender : v.render name = u.render name := hkeep fun e he => (hafter e he).2
  have hall : s.setAll (sent (before ++ (name, value) :: after)) = some v := by
    rw [sent, map_append, ← sent, setAll_append, ht]
    show (t.setData (ascii name.text) value).bind _ = some v
    rw [hu]
    exact hv
  have hread : v.getValue (ascii name.text) = .ok value ↔ v.render name = value :=
    getValue_eq_ok_iff (hrender ▸ hstores.length)
  rw [hrender, hstores.render] at hread
  constructor
  · rintro ⟨w, hw, hget⟩
    rw [hall] at hw
    cases hw
    exact hread.mp hget
  · exact fun hp => ⟨v, hall, hread.mpr hp⟩

theorem stat_round_trip_bytes : ∃ t, ({} : StatSt).setAll (sent ([(.pid, decimal 7)] ++
      (.counter .bytes, decimal 1024) :: [(.rusage .user, decimal 0 ++ 46 :: ascii "004000")])) = some t ∧
    t.getValue (ascii "bytes") = .ok (decimal 1024) := by
  refine (stat_round_trip_iff {} ?_ (.counter (by decide)) ?_).mpr (not_padded nofun)
  · simpa using Usual.pid (by decide)
  · simpa using Usual.rusage (by decide) (by decide) (by decide +kernel)

/-- Four milliseconds of user time come back as 4000 of whatever follows the point. -/
theorem stat_usage_padded : Usual (.rusage .user) (ascii "0.004000") ∧
    (({} : StatSt).setAll [(ascii "rusage_user", ascii "0.004000")]).map (·.getValue (ascii "rusage_user")) =
      some (.ok (ascii "0.4000")) :=
  ⟨@Usual.rusage .user 0 (ascii "004000") (by decide) (by decide) (by decide +kernel), rfl⟩

end StatSt

end LM
