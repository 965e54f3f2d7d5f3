import LibMemcached.Impl.Parse
import LibMemcached.Proof.Encoding

/-!
# Server lists are read back

A list of servers in text (`listText`) is cut into its entries again, whatever separates the weight from
the port and whether or not a blank stands behind a comma: one turn of the loop reads one entry
(`serversParseLoop_cons`) and appends its server (`Entry.append`), so that the whole list is there in the
end (`serversParse_listText`). Only a list of `2 ^ 32` servers is lost, which cannot be counted.
-/

namespace LM.ServersParse

open List

variable (list : List Server)

/-- A host name as the format allows it: a plain one, or an address in brackets. -/
def IsHostText (hostname : Bytes) : Prop :=
  hostname.length ≤ 1024 ∧
    ((hostname ≠ [] ∧ hostname.head? ≠ some '/'.toUInt8 ∧ ∀ b ∈ hostname, isSpace b = false ∧
        b ∉ [0, ','.toUInt8, ':'.toUInt8, '['.toUInt8, ']'.toUInt8]) ∨
      ∃ address, hostname = '['.toUInt8 :: address ++ [']'.toUInt8] ∧
        ∀ b ∈ address, b ∉ [0, ','.toUInt8, '['.toUInt8, ']'.toUInt8])

/-- A server in a list, and how its entry is laid out. -/
structure Entry where
  hostname : Bytes
  port : UInt16
  weight : UInt32
  /-- What stands in front of the weight is a colon, not a blank. -/
  colon : Bool
  /-- A blank stands behind the comma in front of the entry. -/
  blank : Bool
  isHostText : IsHostText hostname
  port_ne_zero : port ≠ 0
  weight_ne_zero : weight ≠ 0

/-- What stands in front of the weight. -/
def Entry.separator (e : Entry) : UInt8 := if e.colon then ':'.toUInt8 else ' '.toUInt8

/-- An entry without what separates it from the one before. -/
def Entry.text (e : Entry) : Bytes :=
  e.hostname ++ ':'.toUInt8 :: (decimal e.port.toNat ++ e.separator :: decimal e.weight.toNat)

/-- The entries behind the first one. -/
def tailText (entries : List Entry) : Bytes :=
  entries.flatMap fun e => ','.toUInt8 :: ((if e.blank then [' '.toUInt8] else []) ++ e.text)

/-- The list of the servers in text. -/
def listText : List Entry → Bytes
  | [] => []
  | e :: entries => e.text ++ tailText entries

/-- The string is read as a list of just these servers. -/
def ReadsBack (entries : List Entry) : Prop :=
  ∃ servers, memcachedServersParse (listText entries) = some servers ∧
    servers.map (fun server => (server.hostname, server.port, server.weight)) =
      entries.map fun e => (e.hostname, e.port, e.weight)

/-! ## One entry -/

variable {a b : Bytes} {c : UInt8} {e : Entry} {entries : List Entry}

theorem strchr_append (h : c ∉ a) : strchr (a ++ c :: b) c = some (a, b) := by
  have hall : ∀ x ∈ a, (x != c) = true := fun x hx => bne_iff_ne.mpr fun heq => h (heq ▸ hx)
  simp [strchr, dropWhile_append_of_pos hall, takeWhile_append_of_pos hall]

theorem strchr_eq_none (h : c ∉ a) : strchr a c = none := by
  have hall : ∀ x ∈ a, (x != c) = true := fun x hx => bne_iff_ne.mpr fun heq => h (heq ▸ hx)
  have hnil : (a ++ []).dropWhile (· != c) = [].dropWhile (· != c) := dropWhile_append_of_pos hall
  rw [append_nil, dropWhile_nil] at hnil
  rw [strchr, hnil]

namespace Entry

/-- The server of an entry. -/
def server (e : Entry) : Server where
  hostname := e.hostname
  port := e.port
  weight := e.weight
  type := .tcp
  hostname_valid := decide_eq_true (Nat.lt_succ_of_le e.isHostText.1)
  weight_ne_zero := e.weight_ne_zero

section

variable (e : Entry)

theorem separator_cases : e.separator = ':'.toUInt8 ∨ e.separator = ' '.toUInt8 := by
  cases h : e.colon <;> simp [separator, h]

theorem comma_not_mem : ','.toUInt8 ∉ e.hostname := by
  obtain ⟨-, ⟨-, -, hplain⟩ | ⟨address, hhost, haddress⟩⟩ := e.isHostText
  · exact fun h => (hplain _ h).2 (by decide)
  · rw [hhost, cons_append, mem_cons, mem_append, mem_singleton]
    rintro (h | h | h)
    · exact absurd h (by decide)
    · exact haddress _ h (by decide)
    · exact absurd h (by decide)

theorem comma_not_mem_text : ','.toUInt8 ∉ e.text := by
  have hseparator : ','.toUInt8 ≠ e.separator := by
    obtain h | h := e.separator_cases <;> rw [h] <;> decide
  simp only [text, mem_append, mem_cons, not_or]
  exact ⟨e.comma_not_mem, by decide, not_mem_decimal (by decide), hseparator, not_mem_decimal (by decide)⟩

theorem length_text_lt : e.text.length < hugeStringLen := by
  have hhost := e.isHostText.1
  have hport : (decimal e.port.toNat).length ≤ 5 :=
    (length_decimal_le_iff (by decide)).mpr (Nat.lt_trans e.port.toNat_lt (by decide))
  have hweight : (decimal e.weight.toNat).length ≤ 10 :=
    (length_decimal_le_iff (by decide)).mpr (Nat.lt_trans e.weight.toNat_lt (by decide))
  simp only [text, length_append, length_cons, hugeStringLen]
  omega

theorem hostname_head : ∃ b rest, e.hostname = b :: rest ∧ isSpace b = false ∧ b ≠ '/'.toUInt8 := by
  obtain ⟨-, ⟨hne, hslash, hplain⟩ | ⟨address, hhost, -⟩⟩ := e.isHostText
  · obtain ⟨b, rest, heq⟩ := exists_cons_of_ne_nil hne
    rw [heq] at hslash hplain
    exact ⟨b, rest, heq, (hplain b mem_cons_self).1, fun h => hslash (h ▸ rfl)⟩
  · exact ⟨_, _, hhost, by decide, by decide⟩

end

/-- The colon behind the name is found, whatever colons an address has. -/
theorem hostColon_text (e : Entry) {ptr : Bytes} (hptr : '['.toUInt8 ∉ ptr) :
    hostColon (e.hostname ++ ':'.toUInt8 :: ptr) = some (e.hostname, ptr) := by
  obtain ⟨-, ⟨-, -, hplain⟩ | ⟨address, hhost, haddress⟩⟩ := e.isHostText
  · have hbracket : '['.toUInt8 ∉ e.hostname ++ ':'.toUInt8 :: ptr := by
      simp only [mem_append, mem_cons, not_or]
      exact ⟨fun h => (hplain _ h).2 (by decide), by decide, hptr⟩
    rw [hostColon, strchr_eq_none hbracket]
    exact strchr_append fun h => (hplain _ h).2 (by decide)
  · have hopen : strchr (e.hostname ++ ':'.toUInt8 :: ptr) '['.toUInt8 =
        some ([], address ++ ']'.toUInt8 :: ':'.toUInt8 :: ptr) := by
      rw [hhost, cons_append, cons_append, append_assoc]
      exact strchr_append not_mem_nil
    have hclose : ']'.toUInt8 ∉ address := fun h => haddress _ h (by decide)
    have hcolon : strchr (':'.toUInt8 :: ptr) ':'.toUInt8 = some ([], ptr) := strchr_append not_mem_nil
    rw [hostColon, hopen]
    simp only [strchr_append hclose, hcolon, Option.map_some, nil_append, hhost]

theorem strchr_weight (e : Entry) :
    (strchr (decimal e.port.toNat ++ e.separator :: decimal e.weight.toNat) ' '.toUInt8).or
      (strchr (decimal e.port.toNat ++ e.separator :: decimal e.weight.toNat) ':'.toUInt8) =
        some (decimal e.port.toNat, decimal e.weight.toNat) := by
  obtain h | h := e.separator_cases
  · have hblank : ' '.toUInt8 ∉ decimal e.port.toNat ++ ':'.toUInt8 :: decimal e.weight.toNat := by
      simp only [mem_append, mem_cons, not_or]
      exact ⟨not_mem_decimal (by decide), by decide, not_mem_decimal (by decide)⟩
    rw [h, strchr_eq_none hblank, strchr_append (not_mem_decimal (by decide)), Option.none_or]
  · rw [h, strchr_append (not_mem_decimal (by decide)), Option.some_or]

theorem parseEntry_text (e : Entry) : parseEntry e.text = some (e.hostname, e.port, e.weight) := by
  have hport : strtoull (decimal e.port.toNat ++ e.separator :: decimal e.weight.toNat) =
      (e.port.toNat, (decimal e.port.toNat).length, false) := by
    refine strtoull_decimal (Nat.lt_trans e.port.toNat_lt (by decide)) ?_
    obtain h | h := e.separator_cases <;> rw [h] <;> rfl
  have hweight := strtoull_decimal_nil (Nat.lt_trans e.weight.toNat_lt (by decide : 2 ^ 32 < 2 ^ 64))
  have hptr : '['.toUInt8 ∉ decimal e.port.toNat ++ e.separator :: decimal e.weight.toNat := by
    simp only [mem_append, mem_cons, not_or]
    refine ⟨not_mem_decimal (by decide), ?_, not_mem_decimal (by decide)⟩
    obtain h | h := e.separator_cases <;> rw [h] <;> decide
  simp only [parseEntry, text, e.hostColon_text hptr, hport, e.strchr_weight, hweight, Bool.false_eq_true,
    if_false, UInt16.ofNat_toNat, UInt32.ofNat_toNat]

/-- The server of an entry is appended, while the list can be counted. -/
theorem append (e : Entry) (list : List Server) :
    serverListAppendWithWeight list e.hostname e.port e.weight =
      some (if (1 + list.length) % 2 ^ 32 = 0 then [] else list ++ [e.server]) := by
  obtain ⟨b, rest, hhost, -, hslash⟩ := e.hostname_head
  have hhead : e.hostname.head? ≠ some '/'.toUInt8 := by
    rw [hhost]
    exact fun h => hslash (Option.some.inj h)
  have hcreate : Server.create? e.hostname e.port e.weight .tcp = some e.server := by
    rw [Server.create?, dif_pos (show isValidServername e.hostname = true from e.server.hostname_valid)]
    simp only [if_neg e.weight_ne_zero, server]
  simp only [serverListAppendWithWeight, if_neg hhead, if_neg e.port_ne_zero, hcreate]
  split <;> rfl

end Entry

/-! ## The list -/

theorem serversParseLoop_nil : serversParseLoop list (listText []) = some list := by
  rw [listText, serversParseLoop, dif_pos rfl]

theorem serversParseLoop_cons (e : Entry) (entries : List Entry) :
    serversParseLoop list (listText (e :: entries)) =
      serversParseLoop (if (1 + list.length) % 2 ^ 32 = 0 then [] else list ++ [e.server])
        (listText entries) := by
  obtain ⟨b, rest, hhost, hblank, -⟩ := e.hostname_head
  have hne : listText (e :: entries) ≠ [] := by simp [listText, Entry.text, hhost]
  rw [serversParseLoop, dif_neg hne]
  cases entries with
  | nil =>
    have hentry : strchr (listText [e]) ','.toUInt8 = none := by
      rw [listText, tailText, flatMap_nil, append_nil]
      exact strchr_eq_none e.comma_not_mem_text
    have htext : listText [e] = e.text := append_nil _
    rw [hentry, htext]
    simp only [Option.getD_none, if_neg (Nat.not_le_of_lt e.length_text_lt), e.parseEntry_text, e.append]
    rfl
  | cons next entries =>
    have hentry : strchr (listText (e :: next :: entries)) ','.toUInt8 =
        some (e.text, (if next.blank then [' '.toUInt8] else []) ++ listText (next :: entries)) := by
      rw [listText, tailText, flatMap_cons, cons_append, append_assoc]
      exact strchr_append e.comma_not_mem_text
    rw [hentry]
    simp only [Option.getD_some, if_neg (Nat.not_le_of_lt e.length_text_lt), e.parseEntry_text, e.append]
    obtain ⟨b, rest, hhost, hspace, -⟩ := next.hostname_head
    have hhead : ∃ more, listText (next :: entries) = b :: more := ⟨_, by
      rw [listText, Entry.text, hhost, cons_append, cons_append]⟩
    obtain ⟨more, hmore⟩ := hhead
    cases next.blank with
    | false => simp [hmore, hspace]
    | true => simp [hmore, show isSpace ' '.toUInt8 = true by decide]

/-- While the list can be counted, the servers of the entries are appended. -/
theorem serversParseLoop_append (entries more : List Entry) (h : list.length + entries.length < 2 ^ 32) :
    serversParseLoop list (listText (entries ++ more)) =
      serversParseLoop (list ++ entries.map Entry.server) (listText more) := by
  induction entries generalizing list with
  | nil => simp
  | cons e entries ih =>
    rw [length_cons] at h
    have hcount : (1 + list.length) % 2 ^ 32 ≠ 0 := by omega
    rw [cons_append, serversParseLoop_cons, if_neg hcount, ih _ (by simp; omega), append_assoc]
    rfl

/-- A list of fewer than `2 ^ 32` servers is read back. -/
theorem serversParse_listText (entries : List Entry) (h : entries.length < 2 ^ 32) : ReadsBack entries := by
  have hloop := serversParseLoop_append [] entries [] (by simpa using h)
  rw [append_nil, nil_append, serversParseLoop_nil] at hloop
  exact ⟨_, hloop, by rw [map_map]; rfl⟩

/-- A server with a plain name. -/
def plainEntry : Entry :=
  ⟨ascii "a.example", 11211, 2, false, false, ⟨by decide, .inl (by decide +kernel)⟩, by decide, by decide⟩

/-- A server with an address. -/
def addressEntry : Entry :=
  ⟨ascii "[::1]", 80, 4294967295, true, true, ⟨by decide, .inr ⟨ascii "::1", by decide,
    by decide +kernel⟩⟩, by decide, by decide⟩

theorem serversParse_listText_two : ReadsBack [plainEntry, addressEntry] :=
  serversParse_listText [plainEntry, addressEntry] (by decide)

/-- A list that is one server longer than 32 bits can count is lost. -/
theorem serversParse_uncountable : ∃ entries, entries ≠ [] ∧ ¬ReadsBack entries := by
  obtain ⟨n, hn⟩ : ∃ n, n + 1 = 2 ^ 32 := ⟨2 ^ 32 - 1, by decide⟩
  have hne {f : Entry → Bytes × UInt16 × UInt32} :
      (List.replicate n plainEntry ++ [plainEntry]).map f ≠ [] := by simp
  have hcount : (1 + (List.replicate n plainEntry.server).length) % 2 ^ 32 = 0 := by
    rw [length_replicate, Nat.add_comm, hn, Nat.mod_self]
  refine ⟨List.replicate n plainEntry ++ [plainEntry], by simp, ?_⟩
  rintro ⟨servers, hparse, hservers⟩
  rw [memcachedServersParse, serversParseLoop_append [] _ _ (by simp; omega), serversParseLoop_cons,
    nil_append, map_replicate, if_pos hcount, serversParseLoop_nil] at hparse
  cases hparse
  exact hne hservers.symm

end LM.ServersParse
