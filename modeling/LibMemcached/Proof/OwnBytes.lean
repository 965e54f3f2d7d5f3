import LibMemcached.Impl.Footprint
import LibMemcached.Proof.Splitting
import LibMemcached.Proof.Values

/-!
# A reply is interpreted from its own bytes

`memcached_io_readline` puts no zero byte behind the line, so there the caller's buffer still holds what
was in it before. Most replies are told by their first bytes, which are compared no further than the line
feed (`starts_line`). The numbers of a `VALUE` or a `VERSION` line are read by `strtoul` and `strtol`,
which skip white space, and a line feed is white space: where nothing else is left of the line they go on
behind it (`numberIn`). A line on which that does not happen (`StaysInLine`) is interpreted alike whatever
the buffer held (`textualDispatch_alike`), and on every other line what the buffer held shows
(`reply_from_own_bytes`).
-/

namespace LM

open List

variable {κ : Type} {K : Kernel κ} {line text buffer blanks rest : Bytes} {p n q : Nat} {b part : UInt8}
  {r : Nat × Bool} {text' : Bytes} {ns : Nat}

/-! ## Numbers at the end of a line -/

theorem starts_line (word : String) (h : (10 : UInt8) ∉ ascii word) (line rest : Bytes) :
    starts word (line ++ 10 :: rest) = starts word line := by
  rw [Bool.eq_iff_iff, starts, starts, isPrefixOf_iff_prefix, isPrefixOf_iff_prefix,
    prefix_iff_eq_take, prefix_iff_eq_take, eq_comm, take_line h, eq_comm]

theorem scanNumber_unsigned (hb : isSpace b = false) (h45 : b ≠ 45) (h43 : b ≠ 43) (rest : Bytes) :
    scanNumber (b :: rest) = (false, (b :: rest).takeWhile isDigit,
      if (b :: rest).takeWhile isDigit = [] then 0 else ((b :: rest).takeWhile isDigit).length) := by
  have hnone : (b :: rest).takeWhile isSpace = [] := takeWhile_cons_of_neg (by simp [hb])
  rw [scanNumber, hnone, length_nil, drop_zero]
  split
  rename_i heq
  split at heq
  · rename_i h; exact absurd (List.cons.inj h).1 h45
  · rename_i h; exact absurd (List.cons.inj h).1 h43
  · cases heq
    simp

theorem scanNumber_blanks (hblanks : ∀ b ∈ blanks, isSpace b = true) (hb : isSpace b = false) (rest : Bytes) :
    scanNumber (blanks ++ b :: rest) = ((scanNumber (b :: rest)).1, (scanNumber (b :: rest)).2.1,
      if (scanNumber (b :: rest)).2.1 = [] then 0 else blanks.length + (scanNumber (b :: rest)).2.2) := by
  have hb' : ¬isSpace b = true := by simp [hb]
  have hblank : (blanks ++ b :: rest).takeWhile isSpace = blanks := by
    rw [takeWhile_append_of_pos hblanks, takeWhile_cons_of_neg hb', append_nil]
  have hnone : (b :: rest).takeWhile isSpace = [] := takeWhile_cons_of_neg hb'
  simp only [scanNumber, hblank, hnone, drop_left, length_nil, drop_zero]
  split <;> split <;> simp_all [Nat.add_assoc]

section

variable (h : text.all isSpace = false) (rest : Bytes)
include h

theorem scanNumber_line : scanNumber (text ++ 10 :: rest) = scanNumber text := by
  obtain ⟨blanks, b, more, rfl, hblanks, hb⟩ : ∃ blanks b more, text = blanks ++ b :: more ∧
      (∀ b ∈ blanks, isSpace b = true) ∧ isSpace b = false :=
    split_blanks fun hall => by simp [all_eq_true.mpr hall] at h
  have hdigits (a : Bytes) : (a ++ 10 :: rest).takeWhile isDigit = a.takeWhile isDigit :=
    takeWhile_append_stop (by decide) a rest
  have hfirst : scanNumber (b :: (more ++ 10 :: rest)) = scanNumber (b :: more) := by
    have hnone (tail : Bytes) : (b :: tail).takeWhile isSpace = [] :=
      takeWhile_cons_of_neg (by simp [hb])
    by_cases h45 : b = 45
    · subst h45
      simp only [scanNumber, hnone, length_nil, drop_zero, hdigits]
    · by_cases h43 : b = 43
      · subst h43
        simp only [scanNumber, hnone, length_nil, drop_zero, hdigits]
      · have hcons := hdigits (b :: more)
        rw [cons_append] at hcons
        rw [scanNumber_unsigned hb h45 h43, scanNumber_unsigned hb h45 h43, hcons]
  rw [append_assoc, cons_append, scanNumber_blanks hblanks hb, scanNumber_blanks hblanks hb, hfirst]

theorem strtoull_line : strtoull (text ++ 10 :: rest) = strtoull text := by
  rw [strtoull, strtoull, scanNumber_line h]

theorem strtol_line : strtol (text ++ 10 :: rest) = strtol text := by
  rw [strtol, strtol, scanNumber_line h]

end

theorem scanNumber_consumed_le (text : Bytes) : (scanNumber text).2.2 ≤ text.length := by
  have hspace := ( takeWhile_prefix isSpace (l := text)).length_le
  have hrest (l : Bytes) : (l.takeWhile isDigit).length ≤ l.length :=
    ( takeWhile_prefix isDigit).length_le
  have hdrop := length_drop (i := (text.takeWhile isSpace).length) (l := text)
  rw [scanNumber]
  split
  rename_i negative sign rest heq
  split at heq <;> cases heq
  · rename_i hd
    rw [hd, length_cons] at hdrop
    have hle := hrest rest
    dsimp only
    split <;> omega
  · rename_i hd
    rw [hd, length_cons] at hdrop
    have hle := hrest rest
    dsimp only
    split <;> omega
  · have hle := hrest (text.drop (text.takeWhile isSpace).length)
    dsimp only
    split <;> omega

theorem strtoull_consumed_le (text : Bytes) : (strtoull text).2.1 ≤ text.length := by
  have h := scanNumber_consumed_le text
  simp only [strtoull]
  split <;> exact h

section

variable (hblanks : ∀ b ∈ blanks, isSpace b = true)
include hblanks

/-- White space, and then a number that stands behind the line. -/
theorem scanNumber_blanks_decimal (h : EndsNumber rest) :
    scanNumber (blanks ++ (decimal n ++ rest)) = (false, decimal n, blanks.length + (decimal n).length) := by
  obtain ⟨b, digits, hd, hb⟩ := decimal_head n
  have hscan := scanNumber_decimal (n := n) h
  rw [hd, cons_append] at hscan
  rw [hd, cons_append, scanNumber_blanks hblanks (isSpace_of_isDigit hb), hscan, ← hd,
    if_neg (decimal_ne_nil n)]

theorem strtoull_blanks (hn : n < 2 ^ 64) (h : EndsNumber rest) :
    strtoull (blanks ++ (decimal n ++ rest)) = (n, blanks.length + (decimal n).length, false) := by
  simp only [strtoull, scanNumber_blanks_decimal hblanks h, digitsValue_decimal,
    if_neg (Nat.not_le_of_lt hn), Bool.false_eq_true, if_false]

theorem strtol_blanks (hn : n < 2 ^ 63) (h : EndsNumber rest) :
    strtol (blanks ++ (decimal n ++ rest)) = ((n : Int), blanks.length + (decimal n).length, false) := by
  simp only [strtol, scanNumber_blanks_decimal hblanks h, digitsValue_decimal,
    if_neg (Nat.not_le_of_lt hn), Bool.false_eq_true, if_false]

end

/-! ## The fields of a `VALUE` line -/

/-- The end of the number that is looked for at `p` on the line, and whether it is out of range; `none` if
it is looked for behind the line, since nothing but white space is left of it. -/
def numberIn (line : Bytes) (p : Nat) : Option (Nat × Bool) :=
  if (line.drop p).all isSpace then none
  else some (p + (strtoull (line.drop p)).2.1, (strtoull (line.drop p)).2.2)

/-- `textual_value_fetch` finds the key, the flags, the length and the cas value, as far as it looks for
them, on the line (given without its line feed). It gives up where a number is out of range or ends
where the command buffer does. -/
def ValueStays (line : Bytes) : Prop :=
  6 ≤ line.length ∧ (keyEnd line = defaultCommandSize ∨ keyEnd line + 1 = defaultCommandSize ∨
    match numberIn line (keyEnd line + 1) with
    | none => False
    | some (p, erange) => erange = true ∨ p = defaultCommandSize ∨ p + 1 = defaultCommandSize ∨
      match numberIn line (p + 1) with
      | none => False
      | some (p, erange) =>
        erange = true ∨ p = defaultCommandSize ∨ line.getD p 10 = 13 ∨ (numberIn line (p + 1)).isSome)

theorem numberIn_eq_some (h : numberIn line p = some r) :
    (line.drop p).all isSpace = false ∧ p ≤ line.length ∧
      r = (p + (strtoull (line.drop p)).2.1, (strtoull (line.drop p)).2.2) := by
  unfold numberIn at h
  split at h
  · cases h
  · rename_i hall
    refine ⟨by simpa using hall, ?_, (Option.some.inj h).symm⟩
    by_contra hlt
    rw [drop_eq_nil_of_le (by omega)] at hall
    simp at hall

theorem numberIn_end {erange : Bool} (h : numberIn line p = some (q, erange)) :
    p + (strtoull (line.drop p)).2.1 = q ∧ (strtoull (line.drop p)).2.2 = erange := by
  obtain ⟨-, -, heq⟩ := numberIn_eq_some h
  cases heq
  exact ⟨rfl, rfl⟩

theorem numberIn_le {erange : Bool} (h : numberIn line p = some (q, erange)) : q ≤ line.length := by
  have hp := (numberIn_eq_some h).2.1
  have hle := strtoull_consumed_le (line.drop p)
  rw [length_drop] at hle
  have := (numberIn_end h).1
  omega

theorem drop_line (hp : p ≤ line.length) (rest : Bytes) :
    (line ++ 10 :: rest).drop p = line.drop p ++ 10 :: rest := drop_append_of_le_length hp

theorem getD_line (hp : p ≤ line.length) (rest : Bytes) : (line ++ 10 :: rest).getD p 0 = line.getD p 10 := by
  by_cases hlt : p < line.length
  · rw [getD_append _ _ _ _ hlt, getD_eq_getElem _ _ hlt, getD_eq_getElem _ _ hlt]
  · obtain rfl : p = line.length := by omega
    simp

/-- The number on the line, as it is found in the buffer. -/
theorem strtoull_drop_line (h : numberIn line p = some r) (rest : Bytes) :
    strtoull ((line ++ 10 :: rest).drop p) = strtoull (line.drop p) := by
  obtain ⟨hall, hp, -⟩ := numberIn_eq_some h
  rw [drop_line hp, strtoull_line hall]

theorem keyWord_line (h : 6 ≤ line.length) (rest : Bytes) :
    ((line ++ 10 :: rest).drop 6).takeWhile (fun b => !(isCntrl b || isSpace b)) =
      (line.drop 6).takeWhile fun b => !(isCntrl b || isSpace b) := by
  rw [drop_line h]
  exact takeWhile_append_stop (by decide) _ rest

theorem keyEnd_le (h : 6 ≤ line.length) : keyEnd line ≤ line.length := by
  have hle := ( takeWhile_prefix (fun b => !(isCntrl b || isSpace b)) (l := line.drop 6)).length_le
  rw [length_drop] at hle
  unfold keyEnd
  omega

/-- What is looked for is on the line, as far as the code comes. -/
theorem ValueStays.found (h : ValueStays line) : 6 ≤ line.length ∧
    (¬(keyEnd line = defaultCommandSize ∨ keyEnd line + 1 = defaultCommandSize) →
      ∃ p erange, numberIn line (keyEnd line + 1) = some (p, erange) ∧
        (¬(erange = true ∨ p = defaultCommandSize ∨ p + 1 = defaultCommandSize) →
          ∃ q erange', numberIn line (p + 1) = some (q, erange') ∧
            (¬(erange' = true ∨ q = defaultCommandSize) → line.getD q 10 ≠ 13 →
              ∃ r, numberIn line (q + 1) = some r))) := by
  obtain ⟨h6, h⟩ := h
  refine ⟨h6, fun hkey => ?_⟩
  rw [← or_assoc] at h
  replace h := h.resolve_left hkey
  split at h
  · exact h.elim
  · rename_i p erange hflags
    refine ⟨p, erange, hflags, fun hf => ?_⟩
    rw [← or_assoc (b := p + 1 = _), ← or_assoc] at h
    replace h := h.resolve_left hf
    split at h
    · exact h.elim
    · rename_i q erange' hlength
      rw [← or_assoc] at h
      exact ⟨q, erange', hlength, fun hl h13 => Option.isSome_iff_exists.mp ((h.resolve_left hl).resolve_left h13)⟩

theorem parseValue_line (h : ValueStays line) (ns : Nat) (rest rest' : Bytes) :
    parseValue ns (line ++ 10 :: rest) = parseValue ns (line ++ 10 :: rest') := by
  obtain ⟨h6, h⟩ := h.found
  simp only [parseValue, keyWord_line h6]
  rw [← keyEnd]
  by_cases hkey : keyEnd line = defaultCommandSize ∨ keyEnd line + 1 = defaultCommandSize
  · rw [if_pos hkey, if_pos hkey]
  rw [if_neg hkey, if_neg hkey]
  obtain ⟨p, erange, hflags, h⟩ := h hkey
  obtain ⟨hp, herange⟩ := numberIn_end hflags
  simp only [strtoull_drop_line hflags, hp, herange]
  by_cases hf : erange = true ∨ p = defaultCommandSize ∨ p + 1 = defaultCommandSize
  · rw [if_pos hf, if_pos hf]
  rw [if_neg hf, if_neg hf]
  obtain ⟨q, erange', hlength, h⟩ := h hf
  obtain ⟨hq, herange'⟩ := numberIn_end hlength
  simp only [strtoull_drop_line hlength, hq, herange', getD_line (numberIn_le hlength)]
  by_cases hl : erange' = true ∨ q = defaultCommandSize
  · rw [if_pos hl, if_pos hl]
  rw [if_neg hl, if_neg hl]
  by_cases h13 : line.getD q 10 = 13
  · rw [if_pos h13, if_pos h13]
  · obtain ⟨r, hcas⟩ := h hl h13
    rw [if_neg h13, if_neg h13, strtoull_drop_line hcas, strtoull_drop_line hcas]

/-! ## The numbers of a `VERSION` line -/

/-- What `strchr` finds: the text from the first blank on. A zero byte ends the search. -/
def fromBlank (buffer : Bytes) : Bytes := buffer.dropWhile fun b => b != 32 && b != 0

/-- The three numbers of a `VERSION` line are looked for on the line (given without its line feed), as far
as they are looked for: a part that is refused is the last one. -/
def VersionStays (line : Bytes) : Prop :=
  let text := fromBlank line
  text.head? = some 32 ∧ text.all isSpace = false ∧
    match versionPart text with
    | none => True
    | some (_, text') => (strtol text).1 = 0 ∨ text'.all isSpace = false ∧
      match versionPart text' with
      | none => True
      | some (_, text'') => text''.all isSpace = false

theorem fromBlank_line (h : (fromBlank line).head? = some 32) (rest : Bytes) :
    fromBlank (line ++ 10 :: rest) = fromBlank line ++ 10 :: rest := by
  have hne : (fromBlank line).isEmpty = false := by
    cases hb : fromBlank line with
    | nil => rw [hb] at h; cases h
    | cons b more => rfl
  rw [fromBlank, dropWhile_append, ← fromBlank, if_neg (by simp [hne])]

/-- A part of a version that begins on the line, and the text behind it. -/
theorem versionPart_line (h : text.all isSpace = false) (rest : Bytes) :
    versionPart (text ++ 10 :: rest) = (versionPart text).map fun part =>
      (part.1, (text ++ 10 :: rest).drop ((strtol text).2.1 + 1)) := by
  rw [versionPart, strtol_line h, versionPart]
  generalize strtol text = number
  obtain ⟨version, consumed, erange⟩ := number
  simp only
  split <;> rfl

theorem versionPart_eq_some (h : versionPart text = some (part, text')) :
    text' = text.drop ((strtol text).2.1 + 1) := by
  rw [versionPart] at h
  split at h
  rename_i heq
  split at h
  · cases h
  · cases h
    rw [heq]

theorem drop_part (h : versionPart text = some (part, text')) (hne : text'.all isSpace = false)
    (rest : Bytes) : (text ++ 10 :: rest).drop ((strtol text).2.1 + 1) = text' ++ 10 :: rest := by
  have heq := versionPart_eq_some h
  have hle : (strtol text).2.1 + 1 ≤ text.length := by
    by_contra hlt
    rw [heq, drop_eq_nil_of_le (by omega)] at hne
    cases hne
  rw [drop_line hle, ← heq]

theorem readVersion_line (h : VersionStays line) (rest rest' : Bytes) :
    (readVersion (fromBlank (line ++ 10 :: rest)) : Act κ ReturnT) =
      readVersion (fromBlank (line ++ 10 :: rest')) := by
  obtain ⟨hblank, hmajor, h⟩ := h
  rw [fromBlank_line hblank, fromBlank_line hblank]
  generalize fromBlank line = text at hmajor h
  unfold readVersion
  simp only [versionPart_line hmajor, strtol_line hmajor]
  cases hpart : versionPart text with
  | none => rfl
  | some p =>
    obtain ⟨major, text'⟩ := p
    simp only [hpart] at h
    simp only [Option.map_some]
    by_cases hzero : (strtol text).1 = 0
    · rw [if_pos hzero, if_pos hzero]
    · obtain ⟨hminor, h⟩ := h.resolve_left hzero
      rw [if_neg hzero, if_neg hzero, drop_part hpart hminor, drop_part hpart hminor]
      simp only [versionPart_line hminor]
      cases hpart' : versionPart text' with
      | none => rfl
      | some p =>
        obtain ⟨minor, text''⟩ := p
        simp only [hpart'] at h
        simp only [Option.map_some, drop_part hpart' h, versionPart_line h]
        cases versionPart text'' <;> rfl

/-! ## Every reply -/

/-- The reply on the line (given without its line feed) is read from no more than the line. -/
structure StaysInLine (line : Bytes) : Prop where
  value : starts "VALUE" line = true → ValueStays line
  version : starts "VERSION" line = true → VersionStays line

/-- Two replies with one code and one result. -/
def SameReply (reply reply' : Reply) : Prop := reply.rc = reply'.rc ∧ reply.result = reply'.result

theorem textualValueFetch_alike {buffer' : Bytes} (h : ∀ ns, parseValue ns buffer = parseValue ns buffer') :
    Sim Eq SameReply (textualValueFetch K buffer) (textualValueFetch K buffer') := by
  refine .get_bind fun s t hst => ?_
  subst hst
  rw [h]
  generalize parseValue (s.memc.namespace_.getD []).length buffer' = fields
  obtain ⟨result, length⟩ := fields
  cases length with
  | none => exact Sim.bind_eq (.self (closeSocket K)) (fun _ => .pure ⟨rfl, rfl⟩) s s rfl
  | some length =>
    have done (rc : ReturnT) (result : Result) :
        Sim (Eq (α := St κ)) SameReply (pure ⟨rc, buffer, result⟩) (pure ⟨rc, buffer', result⟩) :=
      .pure ⟨rfl, rfl⟩
    refine Sim.ite Iff.rfl (fun _ => ?_) (fun _ => ?_) s s rfl
    · exact .bind_eq (.self _) fun rc => done rc _
    · refine .bind_eq (.self _) fun r => ?_
      obtain ⟨rc, cells⟩ := r
      refine .ite Iff.rfl (fun _ => .ite Iff.rfl (fun _ => ?_) fun _ => done _ _) fun _ => ?_
      · exact .bind_eq (.self _) fun _ => .bind_eq (.self _) fun rc => done rc _
      · cases s.memc.decrypted ((cells.map (·.byte)).take length) with
        | none => exact .bind_eq (.self _) fun rc => done rc _
        | some value => exact done _ _

theorem errorText_line {name : String} (h : starts name line = true) (rest : Bytes) :
    errorText name (line ++ 10 :: rest) = errorText name (line ++ [10]) := by
  have hle : (ascii name).length ≤ line.length := ( isPrefixOf_iff_prefix.mp h).length_le
  have htext (text : Bytes) (more : Bytes) : (text ++ 10 :: more).takeWhile (fun b => b != 13 && b != 10) =
      text.takeWhile fun b => b != 13 && b != 10 := takeWhile_append_stop (by decide) text more
  simp only [errorText, drop_line hle]
  cases line.drop (ascii name).length with
  | nil => simp
  | cons b text =>
    by_cases hb : b = 32
    · have hhead (more : Bytes) : (b :: text ++ 10 :: more).head? = some 32 := congrArg some hb
      rw [if_pos (hhead rest), if_pos (hhead [])]
      exact congrArg textOf ((htext text rest).trans (htext text []).symm)
    · have hhead (more : Bytes) : (b :: text ++ 10 :: more).head? ≠ some 32 :=
        fun h => hb (Option.some.inj h)
      rw [if_neg (hhead rest), if_neg (hhead []), htext, htext]

theorem head?_line (line rest : Bytes) : (line ++ 10 :: rest).head? = (line ++ [10]).head? := by
  cases line <;> rfl

/-- A line that is not left is interpreted alike, whatever is behind it. -/
theorem textualDispatch_alike (h : StaysInLine line) (rest rest' : Bytes) (result : Result) :
    Sim Eq SameReply (textualDispatch K (line ++ 10 :: rest) (line.length + 1) result)
      (textualDispatch K (line ++ 10 :: rest') (line.length + 1) result) := by
  have done (rc : ReturnT) {buffer buffer' : Bytes} (result : Result) :
      Sim (Eq (α := St κ)) SameReply (pure ⟨rc, buffer, result⟩) (pure ⟨rc, buffer', result⟩) :=
    .pure ⟨rfl, rfl⟩
  have reply (m : Act κ ReturnT) {buffer buffer' : Bytes} :
      Sim Eq SameReply (do let rc ← m; return ⟨rc, buffer, result⟩)
        (do let rc ← m; return ⟨rc, buffer', result⟩) :=
    .bind_eq (.self m) fun rc => done rc result
  have htake (more : Bytes) : (line ++ 10 :: more).take (line.length + 1) = line ++ [10] := by
    simp [take_append]
  unfold textualDispatch
  simp only [starts_line "VALUE" (by decide), starts_line "VERSION" (by decide),
    starts_line "OK" (by decide), starts_line "STAT" (by decide),
    starts_line "SERVER_ERROR" (by decide), starts_line "STOR" (by decide),
    starts_line "DELETED" (by decide), starts_line "NOT_FOUND" (by decide),
    starts_line "NOT_STORED" (by decide), starts_line "END" (by decide),
    starts_line "ERROR" (by decide), starts_line "EXISTS" (by decide),
    starts_line "TOUCHED" (by decide), starts_line "ITEM" (by decide),
    starts_line "CLIENT_ERROR" (by decide), htake, head?_line line rest, head?_line line rest']
  refine .ite Iff.rfl (fun hvalue => ?_) fun _ => .ite Iff.rfl (fun hversion => ?_) fun _ => ?_
  · exact .bind_eq (.self _) fun _ =>
      textualValueFetch_alike fun ns => parseValue_line (h.value hvalue) ns rest rest'
  · have heq := readVersion_line (κ := κ) (h.version hversion) rest rest'
    rw [fromBlank, fromBlank] at heq
    rw [heq]
    exact reply _
  refine .ite Iff.rfl (fun _ => reply _) fun _ => .ite Iff.rfl (fun _ => reply _) fun _ => ?_
  refine .ite Iff.rfl (fun hserver => ?_) fun _ => ?_
  · refine .ite Iff.rfl (fun _ => reply _) fun _ => .ite Iff.rfl (fun _ => reply _) fun _ => ?_
    refine .ite Iff.rfl (fun _ => reply _) fun _ => ?_
    rw [errorText_line hserver rest, errorText_line hserver rest']
    exact reply _
  iterate 9 refine .ite Iff.rfl (fun _ => reply _) fun _ => ?_
  refine .ite Iff.rfl (fun hclient => ?_) fun _ => .ite Iff.rfl (fun hdigit => ?_) fun _ => ?_
  · rw [errorText_line hclient rest, errorText_line hclient rest']
    exact reply _
  · have hall : line.all isSpace = false := by
      cases line with
      | nil => exact absurd hdigit (by decide)
      | cons b more =>
        have hb : isDigit b = true := hdigit
        simp [isSpace_of_isDigit hb]
    rw [strtoull_line hall, strtoull_line hall]
    generalize strtoull line = number
    obtain ⟨n, consumed, erange⟩ := number
    cases erange with
    | true => exact .bind_eq (.self _) fun rc => done rc _
    | false => exact done _ _
  · exact .bind_eq (.self _) fun rc => done rc _

/-! ## What can be observed of a reply -/

/-- What `textual_read_one_response` tells: the code, the result, the version numbers, and the bytes that
were consumed. -/
structure Observation where
  rc : ReturnT
  result : Result
  version : UInt8 × UInt8 × UInt8
  consumed : List InByte

/-- `textual_read_one_response`, as it is observed. There is no behaviour to speak of if `strchr` finds no
blank in a reply that begins with `VERSION`: `strtol` is then handed a null pointer. -/
def observed (K : Kernel κ) (bufferLength : Nat) (buffer : Bytes) (result : Result) (s : St κ) :
    Option Observation := do
  let ((rc, line), _) ← memcachedIoReadline K bufferLength s
  let text := overlay (bytesOf line) buffer
  if rc = .success ∧ starts "VERSION" text ∧ (fromBlank text).head? ≠ some 32 then none
  else
    let (reply, s') ← textualReadOneResponse K bufferLength buffer result s
    return ⟨reply.rc, reply.result, (s'.majorVersion, s'.minorVersion, s'.microVersion), s'.consumed⟩

/-- The reply on the line (given without its line feed) is interpreted from its own bytes: wherever that
line is read into a buffer, one outcome is observed whatever the buffer held before. -/
def FromOwnBytes (line : Bytes) : Prop :=
  ∀ (κ : Type) (K : Kernel κ) (bufferLength : Nat) (result : Result) (s t : St κ) (cells : List InByte),
    memcachedIoReadline K bufferLength s = some ((.success, cells), t) → bytesOf cells = line ++ [10] →
    ∃ outcome, ∀ buffer : Bytes, buffer.length = bufferLength →
      observed K bufferLength buffer result s = some outcome

/-- What is observed of a response that left a reply and a state. -/
def Observation.of (reply : Reply) (s : St κ) : Observation :=
  ⟨reply.rc, reply.result, (s.majorVersion, s.minorVersion, s.microVersion), s.consumed⟩

section Line

variable {line : Bytes} {bufferLength : Nat} {s t : St κ} {cells : List InByte}
  (hrun : memcachedIoReadline K bufferLength s = some ((.success, cells), t))
  (hcells : bytesOf cells = line ++ [10])
include hrun hcells

theorem textualReadOneResponse_line (buffer : Bytes) (result : Result) :
    textualReadOneResponse K bufferLength buffer result s =
      textualDispatch K (line ++ 10 :: buffer.drop (line.length + 1)) (line.length + 1) result
        { t with lastReply := cells } := by
  have hlen : cells.length = line.length + 1 := by
    have h := congrArg List.length hcells
    simpa [bytesOf] using h
  have hover : overlay (cells.map (·.byte)) buffer = line ++ 10 :: buffer.drop (line.length + 1) := by
    rw [← bytesOf, hcells, overlay]
    simp
  simp only [textualReadOneResponse, Bind.bind, StateT.bind, hrun, Option.bind_some, ReturnT.isFailed,
    hover, hlen]
  rfl

theorem observed_line {result : Result} {reply : Reply} {s' : St κ}
    (hdefined : starts "VERSION" line = true → (fromBlank (line ++ 10 :: buffer.drop (line.length + 1))).head? = some 32)
    (h : textualDispatch K (line ++ 10 :: buffer.drop (line.length + 1)) (line.length + 1) result { t with lastReply := cells } = some (reply, s')) :
    observed K bufferLength buffer result s = some (.of reply s') := by
  have hover : overlay (bytesOf cells) buffer = line ++ 10 :: buffer.drop (line.length + 1) := by
    rw [hcells, overlay]
    simp
  simp only [observed, Bind.bind, hrun, Option.bind_some, hover, textualReadOneResponse_line hrun hcells, h]
  refine if_neg fun h => h.2.2 (hdefined ?_)
  rw [← starts_line "VERSION" (by decide)]
  exact h.2.1

end Line

/-- A reply that stays in its line is interpreted from its own bytes. -/
theorem StaysInLine.fromOwnBytes (h : StaysInLine line) : FromOwnBytes line := by
  intro κ K bufferLength result s t cells hrun hcells
  obtain ⟨reply, s', hdispatch, -⟩ :=
    textualDispatch_answering (K := K) (line ++ 10 :: []) (line.length + 1) result { t with lastReply := cells }
  refine ⟨.of reply s', fun buffer _ => ?_⟩
  have hsim := textualDispatch_alike (K := K) h [] (buffer.drop (line.length + 1)) result
    { t with lastReply := cells } _ rfl
  rw [hdispatch] at hsim
  cases hother : textualDispatch K (line ++ 10 :: buffer.drop (line.length + 1)) (line.length + 1) result
      { t with lastReply := cells } with
  | none => rw [hother] at hsim; cases hsim
  | some p =>
    rw [hother] at hsim
    obtain ⟨⟨hrc, hresult⟩, rfl⟩ : SameReply reply p.1 ∧ s' = p.2 := by
      cases hsim with
      | some h => exact h
    rw [observed_line hrun hcells (fun hv => ?_) hother, Observation.of, Observation.of, hrc, hresult]
    have hstay := h.version hv
    rw [fromBlank_line hstay.1, List.head?_append, hstay.1]
    rfl

/-! ## Lines that are left -/

theorem drop_past (hp : p ≤ line.length + 1) (hall : (line.drop p).all isSpace = true) :
    ∃ blanks : Bytes, (∀ b ∈ blanks, isSpace b = true) ∧ p + blanks.length = line.length + 1 ∧
      ∀ rest, (line ++ 10 :: rest).drop p = blanks ++ rest := by
  by_cases hle : p ≤ line.length
  · refine ⟨line.drop p ++ [10], fun b hb => ?_, ?_, fun rest => ?_⟩
    · rcases mem_append.mp hb with hb | hb
      · exact all_eq_true.mp hall b hb
      · rw [mem_singleton.mp hb]
        decide
    · simp only [length_append, length_drop, length_singleton]
      omega
    · rw [drop_line hle]
      simp
  · obtain rfl : p = line.length + 1 := by omega
    refine ⟨[], by simp, rfl, fun rest => ?_⟩
    simp

/-- The line is the first one that arrives. -/
theorem readline_arriving (h10 : (10 : UInt8) ∉ line) {size : Nat} (hsize : line.length + 1 < size) :
    ∃ t cells, memcachedIoReadline (drip 0) size (arriving (line ++ [10])) = some ((.success, cells), t) ∧
      bytesOf cells = line ++ [10] ∧ t.memc = .create := by
  have hunread : bytesOf ((arriving (line ++ [10])).unread id) = line ++ [10] := by
    simp [arriving, Conn.unread, bytesOf, answerCells, Function.comp_def]
  obtain ⟨r, t, hrun, rfl, hadvance, -⟩ := memcachedIoReadline_fills (drip_delivers 0).toFeeds.fills
    (Nat.lt_trans (Nat.succ_pos _) hsize) (s := arriving (line ++ [10])) rfl trivial
    (plainLine_line hunread h10 hsize) (by simp)
  refine ⟨t, _, hrun, ?_, (hadvance (by simp)).memc⟩
  have hu : bytesOf ((arriving (line ++ [10])).unread id) = (line ++ [10]) ++ [] := by
    rw [append_nil]
    exact hunread
  simpa using bytesOf_take hu

/-- A reply that is interpreted from its own bytes is interpreted alike with two tails of the buffer. -/
theorem FromOwnBytes.alike (h : FromOwnBytes line) (h10 : (10 : UInt8) ∉ line) (stale stale' : Bytes)
    (hpos : 0 < stale.length) (hlen : stale'.length = stale.length) :
    ∃ (t : St (List InByte)) (observation : Observation), t.memc = .create ∧ ∀ tail ∈ [stale, stale'],
        (starts "VERSION" line = true → (fromBlank (line ++ 10 :: tail)).head? = some 32) ∧
        Ensures (textualDispatch (drip 0) (line ++ 10 :: tail) (line.length + 1) {}) t
          fun reply s' => Observation.of reply s' = observation := by
  have hsize : line.length + 1 < line.length + 1 + stale.length := by omega
  obtain ⟨t, cells, hrun, hcells, hmemc⟩ := readline_arriving h10 hsize
  obtain ⟨observation, hsame⟩ := h _ (drip 0) _ {} _ t cells hrun hcells
  refine ⟨{ t with lastReply := cells }, observation, hmemc, fun tail htail => ?_⟩
  have htail : tail.length = stale.length := by
    rcases mem_pair.mp htail with rfl | rfl
    · rfl
    · exact hlen
  have hdrop : (line ++ 10 :: tail).drop (line.length + 1) = tail := by simp
  have hobserved := hsame (line ++ 10 :: tail) (by simp [htail]; omega)
  have hover : overlay (bytesOf cells) (line ++ 10 :: tail) = line ++ 10 :: tail := by
    rw [hcells, overlay]
    simp
  simp only [observed, Bind.bind, hrun, Option.bind_some, hover, textualReadOneResponse_line hrun hcells,
    hdrop] at hobserved
  split at hobserved
  · cases hobserved
  · rename_i hblank
    refine ⟨fun hv => ?_, ?_⟩
    · by_contra hne
      refine hblank ⟨trivial, ?_, hne⟩
      rw [starts_line "VERSION" (by decide)]
      exact hv
    · obtain ⟨p, hp, heq⟩ := Option.bind_eq_some_iff.mp hobserved
      exact ⟨p.1, p.2, hp, Option.some.inj heq⟩

/-! ### `VALUE` lines -/

/-- The fields of a result that come from the line. -/
def Result.fields (result : Result) : Bytes × Nat × Nat :=
  (result.itemKey, result.itemFlags, result.itemCas)

/-- Whatever comes of the value, the fields of the line are in the result. -/
theorem textualValueFetch_fields {s : St κ} (hns : s.memc.namespace_ = none)
    (hkey : s.memc.hashkit.key = none) : Always (textualValueFetch K buffer) s fun reply _ =>
      reply.result.fields = (parseValue 0 buffer).1.fields := by
  refine .get_bind ?_
  have hlength : (s.memc.namespace_.getD []).length = 0 := by rw [hns]; rfl
  rw [hlength]
  generalize parseValue 0 buffer = parsed
  obtain ⟨result, length⟩ := parsed
  cases length with
  | none => exact .skip fun _ _ => .pure rfl
  | some length =>
    refine .ite (fun _ => .skip fun _ _ => .pure rfl) fun _ => .skip fun r t => ?_
    obtain ⟨rc, cells⟩ := r
    refine .ite (fun _ => .ite (fun _ => ?_) fun _ => .pure rfl) fun _ => ?_
    · exact .skip fun _ _ => .skip fun _ _ => .pure rfl
    · rw [Memcached.decrypted_of_no_key hkey _]
      exact .pure rfl

/-- A `VALUE` line that is interpreted from its own bytes gives the same fields with two tails. -/
theorem FromOwnBytes.fields (h : FromOwnBytes line) (h10 : (10 : UInt8) ∉ line)
    (hv : starts "VALUE" line = true) (stale stale' : Bytes) (hpos : 0 < stale.length)
    (hlen : stale'.length = stale.length) :
    (parseValue 0 (line ++ 10 :: stale)).1.fields = (parseValue 0 (line ++ 10 :: stale')).1.fields := by
  obtain ⟨t, observation, hmemc, hsame⟩ := h.alike h10 stale stale' hpos hlen
  have hfields (tail : Bytes) (htail : tail ∈ [stale, stale']) :
      observation.result.fields = (parseValue 0 (line ++ 10 :: tail)).1.fields := by
    obtain ⟨reply, s', hrun, rfl⟩ := (hsame tail htail).2
    have hdispatch : textualDispatch (drip 0) (line ++ 10 :: tail) (line.length + 1) {} =
        (do responseIncrement; textualValueFetch (drip 0) (line ++ 10 :: tail)) := by
      unfold textualDispatch
      rw [if_pos ((starts_line "VALUE" (by decide) line tail).trans hv)]
    rw [hdispatch] at hrun
    have halways : Always (do responseIncrement; textualValueFetch (drip 0) (line ++ 10 :: tail)) t
        fun reply _ => reply.result.fields = (parseValue 0 (line ++ 10 :: tail)).1.fields := by
      refine (Always.modify (Q := fun _ u => u.memc = t.memc) rfl).bind fun _ u hu => ?_
      exact textualValueFetch_fields (by rw [hu, hmemc]; rfl) (by rw [hu, hmemc]; rfl)
    exact halways reply s' hrun
  rw [← hfields stale (by simp), ← hfields stale' (by simp)]

section

variable (h : ¬(keyEnd buffer = defaultCommandSize ∨ keyEnd buffer + 1 = defaultCommandSize))
include h

/-- The flags of a line whose key ends before the end of the command buffer. -/
theorem parseValue_flags :
    (parseValue ns buffer).1.itemFlags = (strtoull (buffer.drop (keyEnd buffer + 1))).1 % 2 ^ 32 := by
  simp only [parseValue]
  rw [← keyEnd]
  simp only [if_neg h]
  generalize strtoull (buffer.drop (keyEnd buffer + 1)) = number
  obtain ⟨flags, n, erange⟩ := number
  simp only
  repeat' split
  all_goals rfl

/-- The cas value of a line that goes on behind its length. -/
theorem parseValue_cas {flags length : Nat}
    (hflags : strtoull (buffer.drop (keyEnd buffer + 1)) = (flags, p, false))
    (hp : ¬(keyEnd buffer + 1 + p = defaultCommandSize ∨ keyEnd buffer + 1 + p + 1 = defaultCommandSize))
    (hlength : strtoull (buffer.drop (keyEnd buffer + 1 + p + 1)) = (length, q, false))
    (hq : keyEnd buffer + 1 + p + 1 + q ≠ defaultCommandSize)
    (h13 : buffer.getD (keyEnd buffer + 1 + p + 1 + q) 0 ≠ 13) : (parseValue ns buffer).1.itemCas =
      (strtoull (buffer.drop (keyEnd buffer + 1 + p + 1 + q + 1))).1 := by
  simp only [parseValue]
  rw [← keyEnd]
  simp only [if_neg h, hflags, hlength, Bool.false_eq_true, false_or, if_neg hp, if_neg hq, if_neg h13]
  generalize strtoull (buffer.drop (keyEnd buffer + 1 + p + 1 + q + 1)) = number
  obtain ⟨cas, n, erange⟩ := number
  simp only
  split <;> rfl

end

theorem keyEnd_line (h : 6 ≤ line.length) (rest : Bytes) : keyEnd (line ++ 10 :: rest) = keyEnd line := by
  rw [keyEnd, keyWord_line h, keyEnd]

theorem strtoull_numberIn (h : numberIn line p = some (q, false)) (rest : Bytes) :
    ∃ n, p + n = q ∧ strtoull ((line ++ 10 :: rest).drop p) = ((strtoull (line.drop p)).1, n, false) := by
  obtain ⟨hq, herange⟩ := numberIn_end h
  refine ⟨(strtoull (line.drop p)).2.1, hq, ?_⟩
  rw [strtoull_drop_line h]
  exact Prod.ext rfl (Prod.ext rfl herange)

theorem numberIn_eq_none (h : numberIn line p = none) : (line.drop p).all isSpace = true := by
  unfold numberIn at h
  split at h
  · assumption
  · cases h

section Left

variable {line : Bytes} (h : FromOwnBytes line) (h10 : (10 : UInt8) ∉ line)
  (hv : starts "VALUE" line = true) (h6 : 6 ≤ line.length)
  (hkey : ¬(keyEnd line = defaultCommandSize ∨ keyEnd line + 1 = defaultCommandSize))
include h h10 hv h6 hkey

theorem FromOwnBytes.flags_in_line : numberIn line (keyEnd line + 1) ≠ none := by
  intro hnone
  obtain ⟨blanks, hblanks, -, hdrop⟩ :=
    drop_past (Nat.succ_le_succ (keyEnd_le h6)) (numberIn_eq_none hnone)
  have hflags (m : Nat) (hm : m < 2 ^ 32) :
      (parseValue 0 (line ++ 10 :: decimal m)).1.itemFlags = m := by
    rw [parseValue_flags (by rwa [keyEnd_line h6]), keyEnd_line h6, hdrop, ← append_nil (decimal m),
      strtoull_blanks hblanks (Nat.lt_trans hm (by decide)) (by simp [EndsNumber])]
    exact Nat.mod_eq_of_lt hm
  have hsame := congrArg (fun fields => fields.2.1)
    (h.fields h10 hv (decimal 1) (decimal 2) (by decide) (by decide))
  have : (1 : Nat) = 2 := (hflags 1 (by decide)).symm.trans (hsame.trans (hflags 2 (by decide)))
  omega

variable {p : Nat} (hflags : numberIn line (keyEnd line + 1) = some (p, false))
  (hp : ¬(p = defaultCommandSize ∨ p + 1 = defaultCommandSize))
include hflags hp

theorem FromOwnBytes.length_in_line : numberIn line (p + 1) ≠ none := by
  intro hnone
  obtain ⟨blanks, hblanks, hend, hdrop⟩ :=
    drop_past (Nat.succ_le_succ (numberIn_le hflags)) (numberIn_eq_none hnone)
  -- A length of one digit or of two, so that it does not end where the command buffer does.
  obtain ⟨m, hm, hmend⟩ : ∃ m, m < 2 ^ 64 ∧
      p + 1 + (blanks.length + (decimal m).length) ≠ defaultCommandSize := by
    by_cases hone : p + 1 + (blanks.length + (decimal 0).length) = defaultCommandSize
    · refine ⟨10, by decide, ?_⟩
      rw [show (decimal 10).length = (decimal 0).length + 1 by decide]
      omega
    · exact ⟨0, by decide, hone⟩
  have hcas (c : Nat) (hc : c < 2 ^ 64) :
      (parseValue 0 (line ++ 10 :: (decimal m ++ 32 :: decimal c))).1.itemCas = c := by
    obtain ⟨n, hn, hnumber⟩ := strtoull_numberIn hflags (decimal m ++ 32 :: decimal c)
    have hnext : (line ++ 10 :: (decimal m ++ 32 :: decimal c)).drop
        (p + 1 + (blanks.length + (decimal m).length)) = 32 :: decimal c := by
      rw [← drop_drop, hdrop, ← drop_drop, drop_left, drop_left]
    have hspace : (line ++ 10 :: (decimal m ++ 32 :: decimal c)).getD
        (p + 1 + (blanks.length + (decimal m).length)) 0 ≠ 13 := by
      rw [getD_eq_getElem?_getD, ← List.head?_drop, hnext]
      exact (by decide : (32 : UInt8) ≠ 13)
    rw [parseValue_cas (p := n) (q := blanks.length + (decimal m).length)
      (by rwa [keyEnd_line h6]) (by rw [keyEnd_line h6]; exact hnumber) (by rwa [keyEnd_line h6, hn])
      (by rw [keyEnd_line h6, hn, hdrop]; exact strtoull_blanks hblanks hm (by simp [EndsNumber, isDigit]))
      (by rwa [keyEnd_line h6, hn]) (by rwa [keyEnd_line h6, hn]), keyEnd_line h6, hn, ← drop_drop, hnext]
    exact congrArg Prod.fst (strtoull_decimal_nil hc)
  have hsame := congrArg (fun fields => fields.2.2)
    (h.fields h10 hv (decimal m ++ 32 :: decimal 5) (decimal m ++ 32 :: decimal 6)
      (by simp) (by simp only [length_append, length_cons]; rfl))
  have : (5 : Nat) = 6 := (hcas 5 (by decide)).symm.trans (hsame.trans (hcas 6 (by decide)))
  omega

variable {q : Nat} (hlength : numberIn line (p + 1) = some (q, false)) (hq : q ≠ defaultCommandSize)
  (h13 : line.getD q 10 ≠ 13)
include hlength hq h13

theorem FromOwnBytes.cas_in_line : numberIn line (q + 1) ≠ none := by
  intro hnone
  obtain ⟨blanks, hblanks, -, hdrop⟩ :=
    drop_past (Nat.succ_le_succ (numberIn_le hlength)) (numberIn_eq_none hnone)
  have hcas (c : Nat) (hc : c < 2 ^ 64) : (parseValue 0 (line ++ 10 :: decimal c)).1.itemCas = c := by
    obtain ⟨n, hn, hnumber⟩ := strtoull_numberIn hflags (decimal c)
    obtain ⟨n', hn', hnumber'⟩ := strtoull_numberIn hlength (decimal c)
    rw [parseValue_cas (p := n) (q := n')
      (by rwa [keyEnd_line h6]) (by rw [keyEnd_line h6]; exact hnumber)
      (by rwa [keyEnd_line h6, hn]) (by rw [keyEnd_line h6, hn]; exact hnumber')
      (by rwa [keyEnd_line h6, hn, hn'])
      (by rwa [keyEnd_line h6, hn, hn', getD_line (numberIn_le hlength)]), keyEnd_line h6, hn, hn', hdrop,
      ← append_nil (decimal c), strtoull_blanks hblanks hc (by simp [EndsNumber])]
  have hsame := congrArg (fun fields => fields.2.2)
    (h.fields h10 hv (decimal 1) (decimal 2) (by decide) (by decide))
  have : (1 : Nat) = 2 := (hcas 1 (by decide)).symm.trans (hsame.trans (hcas 2 (by decide)))
  omega

end Left

/-- A `VALUE` line that is left shows what the buffer held. -/
theorem FromOwnBytes.valueStays (h : FromOwnBytes line) (h10 : (10 : UInt8) ∉ line)
    (hv : starts "VALUE" line = true) : ValueStays line := by
  have h6 : 6 ≤ line.length := by
    by_contra hshort
    obtain ⟨rest, rfl⟩ := isPrefixOf_iff_prefix.mp hv
    obtain rfl : rest = [] := by
      have h5 : (ascii "VALUE").length = 5 := by decide
      rw [length_append, h5] at hshort
      exact length_eq_zero_iff.mp (by omega)
    exact absurd (h.fields h10 hv [97] [98] (by decide) (by decide)) (by decide +kernel)
  refine ⟨h6, ?_⟩
  by_cases hkey : keyEnd line = defaultCommandSize ∨ keyEnd line + 1 = defaultCommandSize
  · exact hkey.imp id .inl
  · refine .inr (.inr ?_)
    cases hflags : numberIn line (keyEnd line + 1) with
    | none => exact h.flags_in_line h10 hv h6 hkey hflags
    | some r =>
      obtain ⟨p, _ | _⟩ := r
      · by_cases hp : p = defaultCommandSize ∨ p + 1 = defaultCommandSize
        · exact .inr (hp.imp id .inl)
        · refine .inr (.inr (.inr ?_))
          cases hlength : numberIn line (p + 1) with
          | none => exact h.length_in_line h10 hv h6 hkey hflags hp hlength
          | some r =>
            obtain ⟨q, _ | _⟩ := r
            · by_cases hq : q = defaultCommandSize
              · exact .inr (.inl hq)
              · by_cases h13 : line.getD q 10 = 13
                · exact .inr (.inr (.inl h13))
                · exact .inr (.inr (.inr (Option.isSome_iff_ne_none.mpr
                    (h.cas_in_line h10 hv h6 hkey hflags hp hlength hq h13))))
            · exact .inl rfl
      · exact .inl rfl

/-! ### `VERSION` lines -/

theorem strtol_consumed_le (text : Bytes) : (strtol text).2.1 ≤ text.length := by
  have h := scanNumber_consumed_le text
  simp only [strtol]
  repeat' split
  all_goals exact h

theorem versionPart_blanks (hblanks : ∀ b ∈ blanks, isSpace b = true) (hn : n ≤ 255) (h : EndsNumber rest) :
    versionPart (blanks ++ (decimal n ++ rest)) = some (UInt8.ofInt n, rest.drop 1) := by
  have hdrop : (blanks ++ (decimal n ++ rest)).drop (blanks.length + (decimal n).length + 1) =
      rest.drop 1 := by
    rw [Nat.add_assoc, ← drop_drop, drop_left, ← drop_drop, drop_left]
  rw [versionPart, strtol_blanks hblanks (by omega) h]
  simp only [hdrop, Bool.false_eq_true, false_or]
  rw [if_neg (by omega)]

/-- Three numbers, of which the first is not zero, are a version. -/
theorem readVersion_parts {text₁ text₂ text₃ : Bytes} {major minor micro : UInt8}
    (h₁ : versionPart text = some (major, text₁)) (hzero : (strtol text).1 ≠ 0)
    (h₂ : versionPart text₁ = some (minor, text₂)) (h₃ : versionPart text₂ = some (micro, text₃)) (s : St κ) :
    Ensures (readVersion text) s fun _ s' =>
      (s'.majorVersion, s'.minorVersion, s'.microVersion) = (major, minor, micro) := by
  simp only [readVersion, h₁, h₂, h₃, if_neg hzero, ensures_bind, ensures_modify]
  exact ensures_pure.mpr rfl

theorem not_value_of_version (h : starts "VERSION" line = true) : starts "VALUE" line = false := by
  obtain ⟨rest, rfl⟩ := isPrefixOf_iff_prefix.mp h
  rfl

section

variable (h : FromOwnBytes line) (h10 : (10 : UInt8) ∉ line) (hv : starts "VERSION" line = true)
include h h10 hv

/-- A `VERSION` line that is interpreted from its own bytes gives the same version with two tails. -/
theorem FromOwnBytes.versions (stale stale' : Bytes) (hpos : 0 < stale.length)
    (hlen : stale'.length = stale.length) {version version' : UInt8 × UInt8 × UInt8}
    (hstale : ∀ s : St (List InByte), Ensures (readVersion (fromBlank (line ++ 10 :: stale))) s fun _ s' => (s'.majorVersion, s'.minorVersion, s'.microVersion) = version)
    (hstale' : ∀ s : St (List InByte), Ensures (readVersion (fromBlank (line ++ 10 :: stale'))) s fun _ s' => (s'.majorVersion, s'.minorVersion, s'.microVersion) = version') :
    version = version' := by
  obtain ⟨t, observation, -, hsame⟩ := h.alike h10 stale stale' hpos hlen
  have hversion {tail : Bytes} (htail : tail ∈ [stale, stale']) {v : UInt8 × UInt8 × UInt8}
      (hread : Ensures (readVersion (fromBlank (line ++ 10 :: tail))) t
        fun _ s' => (s'.majorVersion, s'.minorVersion, s'.microVersion) = v) :
      observation.version = v := by
    obtain ⟨reply, s', hrun, rfl⟩ := (hsame tail htail).2
    have hvalue : ¬starts "VALUE" (line ++ 10 :: tail) = true := by
      rw [starts_line "VALUE" (by decide), not_value_of_version hv]
      decide
    have hdispatch : textualDispatch (drip 0) (line ++ 10 :: tail) (line.length + 1) {} =
        (do let rc ← readVersion (fromBlank (line ++ 10 :: tail)); return ⟨rc, line ++ 10 :: tail, {}⟩) := by
      unfold textualDispatch
      rw [if_neg hvalue, if_pos ((starts_line "VERSION" (by decide) line tail).trans hv)]
      rfl
    rw [hdispatch] at hrun
    have hall := hread.bind (f := fun rc => (pure ⟨rc, line ++ 10 :: tail, {}⟩ : Act _ Reply))
      (P := fun _ s' => (s'.majorVersion, s'.minorVersion, s'.microVersion) = v)
      fun _ _ hq => ensures_pure.mpr hq
    exact hall.elim hrun
  exact (hversion (by simp) (hstale t)).symm.trans (hversion (by simp) (hstale' t))

/-- There is a blank on a `VERSION` line that is interpreted from its own bytes: a zero byte behind the
line ends the search for one. -/
theorem FromOwnBytes.blank_in_line : (fromBlank line).head? = some 32 := by
  obtain ⟨t, observation, -, hsame⟩ := h.alike h10 [0] [0] (by decide) rfl
  have hblank := (hsame [0] (by simp)).1 hv
  rw [fromBlank, dropWhile_append, ← fromBlank] at hblank
  split at hblank
  · exact absurd hblank (by decide)
  · rename_i hne
    cases hline : fromBlank line with
    | nil => rw [hline] at hne; exact absurd rfl hne
    | cons b more => rw [hline] at hblank; exact hblank

/-- A `VERSION` line that is left shows what the buffer held. -/
theorem FromOwnBytes.versionStays : VersionStays line := by
  have hblank := h.blank_in_line h10 hv
  have hversions := h.versions h10 hv
  simp only [fromBlank_line hblank] at hversions
  have hone : versionPart (decimal 1) = some (1, []) := by decide +kernel
  have htwo : versionPart (decimal 1 ++ 46 :: decimal 1) = some (1, decimal 1) := by decide +kernel
  have hdot (rest : Bytes) : EndsNumber (46 :: rest) := by simp [EndsNumber, isDigit]
  have hdiffer : UInt8.ofInt (1 : Nat) ≠ UInt8.ofInt (2 : Nat) := by decide
  refine ⟨hblank, ?_⟩
  generalize fromBlank line = text at hversions
  cases hmajor : text.all isSpace with
  | true =>
    obtain ⟨blanks, hblanks, -, hdrop⟩ := drop_past (Nat.zero_le _) hmajor
    simp only [drop_zero] at hdrop
    simp only [hdrop] at hversions
    have hread (m : Nat) (hm : m ≤ 255) (hpos : m ≠ 0) (s : St (List InByte)) : Ensures
        (readVersion (blanks ++ (decimal m ++ 46 :: (decimal 1 ++ 46 :: decimal 1)))) s
        fun _ s' => (s'.majorVersion, s'.minorVersion, s'.microVersion) = (UInt8.ofInt m, 1, 1) :=
      readVersion_parts (versionPart_blanks hblanks hm (hdot _))
        (by rw [strtol_blanks hblanks (by omega) (hdot _)]; exact fun h => hpos (Int.ofNat.inj h)) htwo hone s
    exact absurd (congrArg Prod.fst (hversions _ _ (by simp) (by simp; decide)
      (hread 1 (by decide) (by decide)) (hread 2 (by decide) (by decide)))) hdiffer
  | false =>
    refine ⟨rfl, ?_⟩
    cases hpart : versionPart text with
    | none => trivial
    | some part =>
      obtain ⟨major, text'⟩ := part
      by_cases hzero : (strtol text).1 = 0
      · exact .inl hzero
      · refine .inr ?_
        have hfirst (tail : Bytes) := versionPart_line hmajor tail
        rw [hpart] at hfirst
        have hnonzero (tail : Bytes) : (strtol (text ++ 10 :: tail)).1 ≠ 0 := by
          rw [strtol_line hmajor]
          exact hzero
        have htext' := versionPart_eq_some hpart
        cases hminor : text'.all isSpace with
        | true =>
          obtain ⟨blanks, hblanks, -, hdrop⟩ :=
            drop_past (Nat.succ_le_succ (strtol_consumed_le text)) (htext' ▸ hminor)
          have hread (m : Nat) (hm : m ≤ 255) (s : St (List InByte)) : Ensures
              (readVersion (text ++ 10 :: (decimal m ++ 46 :: decimal 1))) s
              fun _ s' => (s'.majorVersion, s'.minorVersion, s'.microVersion) = (major, UInt8.ofInt m, 1) :=
            readVersion_parts (hfirst _) (hnonzero _)
              (by rw [hdrop]; exact versionPart_blanks hblanks hm (hdot _)) hone s
          exact absurd (congrArg (fun v => v.2.1) (hversions _ _ (by simp) (by simp; decide)
            (hread 1 (by decide)) (hread 2 (by decide)))) hdiffer
        | false =>
          refine ⟨rfl, ?_⟩
          cases hpart' : versionPart text' with
          | none => trivial
          | some part =>
            obtain ⟨minor, text''⟩ := part
            have hsecond (tail : Bytes) := versionPart_line hminor tail
            rw [hpart'] at hsecond
            cases hmicro : text''.all isSpace with
            | false => exact hmicro
            | true =>
              obtain ⟨blanks, hblanks, -, hdrop⟩ :=
                drop_past (Nat.succ_le_succ (strtol_consumed_le text')) (versionPart_eq_some hpart' ▸ hmicro)
              have hread (m : Nat) (hm : m ≤ 255) (s : St (List InByte)) : Ensures
                  (readVersion (text ++ 10 :: decimal m)) s
                  fun _ s' => (s'.majorVersion, s'.minorVersion, s'.microVersion) =
                    (major, minor, UInt8.ofInt m) := by
                have hthird : versionPart ((text' ++ 10 :: decimal m).drop ((strtol text').2.1 + 1)) =
                    some (UInt8.ofInt m, []) := by
                  rw [hdrop, ← append_nil (decimal m)]
                  exact versionPart_blanks hblanks hm (by simp [EndsNumber])
                exact readVersion_parts (hfirst _) (hnonzero _)
                  (by rw [drop_part hpart hminor]; exact hsecond _) hthird s
              exact absurd (congrArg (fun v => v.2.2) (hversions _ _ (by decide) (by decide)
                (hread 1 (by decide)) (hread 2 (by decide)))) hdiffer

end

/-- A reply is interpreted from its own bytes, whatever the buffer held before, just if the numbers of a
`VALUE` or `VERSION` line are looked for on the line. -/
theorem reply_from_own_bytes (line : Bytes) (h10 : (10 : UInt8) ∉ line) :
    FromOwnBytes line ↔ StaysInLine line :=
  ⟨fun h => ⟨h.valueStays h10, h.versionStays h10⟩, StaysInLine.fromOwnBytes⟩

/-- A line with a cas value. -/
theorem reply_from_own_bytes_cas : FromOwnBytes (ascii "VALUE a 0 1 7\r") := by
  refine (reply_from_own_bytes _ (by decide)).mpr ⟨fun _ => ⟨by decide, .inr (.inr ?_)⟩, fun h => ?_⟩
  · have hkey : keyEnd (ascii "VALUE a 0 1 7\r") = 7 := by decide +kernel
    have hflags : numberIn (ascii "VALUE a 0 1 7\r") 8 = some (9, false) := by decide +kernel
    have hlength : numberIn (ascii "VALUE a 0 1 7\r") 10 = some (11, false) := by decide +kernel
    rw [hkey, hflags]
    refine .inr (.inr (.inr ?_))
    rw [hlength]
    exact .inr (.inr (.inr (by decide +kernel)))
  · exact absurd h (by decide)

/-- A `VALUE` line that ends in a line feed alone: the cas value is what the buffer held behind it. -/
theorem reply_shows_buffer :
    ¬FromOwnBytes (ascii "VALUE a 0 1") ∧
      Ensures (textualReadOneResponse (drip 0) 20 (List.replicate 20 55) {})
        (arriving (ascii "VALUE a 0 1\nx\r\n")) (fun reply _ =>
          reply.rc = .success ∧ reply.result.itemCas = 77777777) ∧
      Ensures (textualReadOneResponse (drip 0) 20 (List.replicate 20 56) {})
        (arriving (ascii "VALUE a 0 1\nx\r\n")) fun reply _ =>
          reply.rc = .success ∧ reply.result.itemCas = 88888888 := by
  refine ⟨fun h => ?_, by decide +kernel, by decide +kernel⟩
  have hsame := h.fields (by decide) (by decide) [55] [56] (by decide) rfl
  exact absurd hsame (by decide +kernel)

end LM
