import LibMemcached.Proof.Stream
import LibMemcached.Proof.TextAnswers

/-!
# Values on the wire

The answers to the commands that get items, as the server library writes them and as the client
library reads them. A response is read from the stream of unread bytes (`Took`):

* text: a `VALUE` line with the value behind it (`valueBlock`, read back by
  `readOneResponse_valueBlock`) and the line `END` (`readOneResponse_end`);
* binary: the packet of a hit (`readOneResponse_hit`) and the answer to `NOOP`
  (`readOneResponse_noop`).

In both protocols the item is the one that was written (`Hit.item`), with the namespace taken from
its key (`get_responses_read_back`).
-/

namespace LM

open List RequestHeader

variable {κ σ : Type} {K : Kernel κ} {pending : κ → List InByte} {P : Memcached → Prop} {s t : St κ}
  {hit : Hit} {b a : Bytes} {cells : List InByte} {size : Nat} {p : Packet} {Q : Reply → St κ → Prop}
  {key : Bytes} {plain : Bytes} {r : RequestHeader}

/-! ## Reading one response -/

/-- A response of `n` bytes was read, the response counter is `count`, and nothing else happened. -/
structure Took (pending : κ → List InByte) (s : St κ) (n count : Nat) (s' : St κ) : Prop where
  unread : s'.unread pending = (s.unread pending).drop n
  view : s'.view = { s.view with
    consumed := s.consumed ++ (s.unread pending).take n, lastReply := s'.lastReply
    cursorActive := count }
  room : s.readBuffer.length ≤ maxBuffer → s'.readBuffer.length ≤ maxBuffer

namespace Took

variable {s t u : St κ} {n m count : Nat}

theorem start (s : St κ) (count : Nat) : Took pending s 0 count { s with cursorActive := count } :=
  ⟨rfl, by simp [St.view], id⟩

variable (h : Took pending s n count t)
include h

theorem advance (h' : Advance pending t m u) : Took pending s (n + m) count u where
  unread := by rw [h'.unread, h.unread, drop_drop]
  view := by
    have hc : t.consumed = s.consumed ++ (s.unread pending).take n := congrArg (·.consumed) h.view
    have hl : u.lastReply = t.lastReply := congrArg (·.lastReply) h'.view
    rw [h'.view, h.view, h.unread, hc, hl, take_add, append_assoc]
  room hr := h'.room (h.room hr)

theorem recount (count' : Nat) :
    Took pending s n count' { t with cursorActive := count' } where
  unread := h.unread
  view := by
    have hv : ({ t with cursorActive := count' } : St κ).view =
        { t.view with cursorActive := count' } := rfl
    rw [hv, h.view]
  room := h.room

theorem reply (cells : List InByte) :
    Took pending s n count { t with lastReply := cells } where
  unread := h.unread
  view := by
    have hv : ({ t with lastReply := cells } : St κ).view = { t.view with lastReply := cells } := rfl
    rw [hv, h.view]
  room := h.room

theorem valid : t.valid = s.valid := congrArg (·.valid) h.view

theorem cursorActive : t.cursorActive = count :=
  congrArg (·.cursorActive) h.view

theorem memc : t.memc = s.memc := congrArg (·.memc) h.view

theorem writeBuffer : t.writeBuffer = s.writeBuffer :=
  congrArg (·.writeBuffer) h.view

theorem isPurging : t.isPurging = s.isPurging :=
  congrArg (·.isPurging) h.view

end Took

section

variable (h : bytesOf cells = a ++ b)
include h

theorem bytesOf_take : bytesOf (cells.take a.length) = a := by
  rw [bytesOf, map_take, ← bytesOf, h, take_left]

theorem bytesOf_drop : bytesOf (cells.drop a.length) = b := by
  rw [bytesOf, map_drop, ← bytesOf, h, drop_left]

theorem length_le_of_bytesOf : a.length ≤ cells.length := by
  have hl := congrArg List.length h
  rw [bytesOf, length_map, length_append] at hl
  omega

end

theorem memcachedSafeRead_fills (hf : Fills K pending P) (hv : s.valid = true) (hP : P s.memc)
    (hu : bytesOf (s.unread pending) = a ++ b) : Ensures (memcachedSafeRead K a.length) s fun r s' =>
      r.1 = .success ∧ bytesOf r.2 = a ∧ Advance pending s a.length s' ∧ bytesOf (s'.unread pending) = b := by
  have hadvance {s' : St κ} (h : Advance pending s a.length s') : bytesOf (s'.unread pending) = b := by
    rw [h.unread, bytesOf_drop hu]
  refine ensures_ite (fun hzero => ensures_pure.mpr ?_) fun _ => ?_
  · have hnil : a = [] := length_eq_zero_iff.mp hzero
    subst hnil
    exact ⟨rfl, rfl, .zero, hu⟩
  · refine (memcachedIoRead_fills hf hv hP (length_le_of_bytesOf hu)).mono fun r t ht => ?_
    obtain ⟨rfl, ht⟩ := ht
    exact ⟨rfl, bytesOf_take hu, ht, hadvance ht⟩

theorem plainLine_line {room : Nat} {line rest : Bytes} (h : bytesOf cells = line ++ 10 :: rest)
    (hline : 10 ∉ line) (hroom : line.length + 1 < room) :
    plainLine room cells = (cells.take (line.length + 1), .complete) := by
  induction line generalizing room cells with
  | nil =>
    obtain ⟨room, rfl⟩ : ∃ n, room = n + 2 := ⟨room - 2, by simp at hroom; omega⟩
    cases cells with
    | nil => cases h
    | cons c cells =>
      have hc : c.byte = 10 := (List.cons.inj h).1
      simp [plainLine, hc]
  | cons b line ih =>
    obtain ⟨room, rfl⟩ : ∃ n, room = n + 1 := ⟨room - 1, by omega⟩
    cases cells with
    | nil => cases h
    | cons c cells =>
      have hc : c.byte = b := (List.cons.inj h).1
      have hrest : bytesOf cells = line ++ 10 :: rest := (List.cons.inj h).2
      have hne : c.byte ≠ 10 := fun h10 => hline (by rw [← h10, hc]; exact mem_cons_self)
      rw [length_cons] at hroom
      have htail := ih hrest (fun hm => hline (mem_cons_of_mem _ hm))
        (show line.length + 1 < room by omega)
      simp only [plainLine, if_neg hne, htail, length_cons, take_succ_cons]

/-! ## The text protocol -/

/-- The item of a hit, without the first `ns` bytes of its key. -/
def Hit.item (hit : Hit) (ns cas : Nat) : Result :=
  { itemKey := hit.key.drop ns, itemFlags := hit.flags.toNat, itemCas := cas, value := hit.body }

/-- What stands behind the length in a `VALUE` line. -/
def lineTail (cas : Option Nat) : Bytes :=
  match cas with
  | some cas => 32 :: (decimal cas ++ [13, 10])
  | none => [13, 10]

/-- The text of a `VALUE` line, with the line feed. -/
def valueText (key : Bytes) (flags length : Nat) (cas : Option Nat) : Bytes :=
  ascii "VALUE " ++ (key ++ 32 :: (decimal flags ++ 32 :: (decimal length ++ lineTail cas)))

theorem length_valueText (key : Bytes) (flags length : Nat) (cas : Option Nat) :
    (valueText key flags length cas).length = 6 + key.length + 1 + (decimal flags).length + 1 +
      (decimal length).length + (lineTail cas).length := by
  have h6 : (ascii "VALUE ").length = 6 := by decide
  simp only [valueText, length_append, length_cons, h6]
  omega

theorem endsNumber_lineTail (cas : Option Nat) (rest : Bytes) : EndsNumber (lineTail cas ++ rest) := by
  cases cas <;> simp [EndsNumber, lineTail, isDigit]

theorem parseValue_valueText (ns : Nat) {flags length : Nat} {cas : Option Nat}
    (hkey : ∀ b ∈ key, (!(isCntrl b || isSpace b)) = true) (hflags : flags < 2 ^ 32)
    (hlength : length < 2 ^ 64) (hcas : ∀ n ∈ cas, n < 2 ^ 64)
    (hline : (valueText key flags length cas).length < defaultCommandSize) (rest : Bytes) :
    parseValue ns (valueText key flags length cas ++ rest) =
      ({ itemKey := key.drop ns, itemFlags := flags, itemCas := cas.getD 0 }, some length) := by
  have h6 : (ascii "VALUE ").length = 6 := by decide
  have htail : 2 ≤ (lineTail cas).length := by cases cas <;> simp [lineTail]
  rw [length_valueText] at hline
  -- What the line buffer holds from each of the fields on.
  have hword : (valueText key flags length cas ++ rest).drop 6 =
      key ++ 32 :: (decimal flags ++ 32 :: (decimal length ++ (lineTail cas ++ rest))) := by
    rw [valueText, append_assoc, ← h6, drop_left]
    simp
  generalize valueText key flags length cas ++ rest = buffer at hword
  have hkey' : (buffer.drop 6).takeWhile (fun b => !(isCntrl b || isSpace b)) = key := by
    rw [hword, takeWhile_append_stop (by decide), takeWhile_eq_self_iff.mpr hkey]
  have hflags' : buffer.drop (6 + key.length + 1) =
      decimal flags ++ 32 :: (decimal length ++ (lineTail cas ++ rest)) := by
    rw [Nat.add_assoc, ← drop_drop, hword, ← drop_drop, drop_left]
    rfl
  have hlength' : buffer.drop (6 + key.length + 1 + (decimal flags).length + 1) =
      decimal length ++ (lineTail cas ++ rest) := by
    rw [Nat.add_assoc _ _ 1, ← drop_drop, hflags', ← drop_drop, drop_left]
    rfl
  have htail' : buffer.drop (6 + key.length + 1 + (decimal flags).length + 1 +
      (decimal length).length) = lineTail cas ++ rest := by
    rw [← drop_drop, hlength', drop_left]
  have hspace (more : Bytes) : EndsNumber (32 :: more) := by simp [EndsNumber, isDigit]
  have hend : buffer.getD (6 + key.length + 1 + (decimal flags).length + 1 +
      (decimal length).length) 0 = (lineTail cas ++ rest).headD 0 := by
    rw [getD_eq_getElem?_getD, ← List.head?_drop, htail', headD_eq_head?_getD]
  rw [parseValue]
  simp only [hkey', hflags', strtoull_decimal (Nat.lt_trans hflags (by decide)) (hspace _), hlength',
    strtoull_decimal hlength (endsNumber_lineTail cas rest), Nat.mod_eq_of_lt hflags, hend,
    Bool.false_eq_true, false_or]
  rw [if_neg (by omega), if_neg (by omega), if_neg (by omega)]
  cases cas with
  | none =>
    rw [if_pos (by simp [lineTail]), if_neg (by simp only [lineTail, length_cons, length_nil] at hline; omega)]
    rfl
  | some cas =>
    have hcas' : buffer.drop (6 + key.length + 1 + (decimal flags).length + 1 +
        (decimal length).length + 1) = decimal cas ++ ([13, 10] ++ rest) := by
      rw [← drop_drop, htail', lineTail, cons_append, append_assoc]
      rfl
    have hcrlf : EndsNumber ([13, 10] ++ rest) := endsNumber_lineTail none rest
    rw [if_neg (by simp [lineTail]), hcas', strtoull_decimal (hcas cas rfl) hcrlf]
    simp only [Bool.false_eq_true, false_or, Option.getD_some]
    rw [if_neg ?_]
    simp only [lineTail, length_cons, length_append] at hline
    omega

/-- The cas value that the answer to a command carries. -/
def casOf (command : AsciiCmd) (hit : Hit) : Option Nat :=
  if command = .gets then some hit.cas.toNat else none

theorem valueBlock_eq (command : AsciiCmd) (hit : Hit) : valueBlock command hit =
      valueText hit.key hit.flags.toNat hit.body.length (casOf command hit) ++ (hit.body ++ [13, 10]) := by
  have hcrlf : ascii "\r\n" = [13, 10] := by decide
  rw [valueBlock, valueText, spaced_natCast, spaced_natCast, casOf, hcrlf]
  split
  · simp [spaced_natCast, lineTail]
  · simp [lineTail]

/-- The longest key with which every `VALUE` line fits into the line buffer. -/
def maxLineKey : Nat := 298

theorem length_valueText_lt (command : AsciiCmd) (hkey : hit.key.length ≤ maxLineKey) :
    (valueText hit.key hit.flags.toNat hit.body.length (casOf command hit)).length < defaultCommandSize := by
  have hflags : (decimal hit.flags.toNat).length ≤ 10 :=
    (length_decimal_le_iff (by decide)).mpr (Nat.lt_trans hit.flags.toNat_lt (by decide))
  have hbody : (decimal hit.body.length).length ≤ 10 :=
    (length_decimal_le_iff (by decide)).mpr (Nat.lt_trans hit.body_lt (by decide))
  have hcas : (lineTail (casOf command hit)).length ≤ 23 := by
    have hdigits : (decimal hit.cas.toNat).length ≤ 20 :=
      (length_decimal_le_iff (by decide)).mpr (Nat.lt_trans hit.cas.toNat_lt (by decide))
    rw [casOf]
    split
    · simp only [lineTail, length_cons, length_append, length_nil]
      omega
    · simp [lineTail]
  rw [length_valueText]
  simp only [maxLineKey, defaultCommandSize] at *
  omega

theorem valueText_line (hkey : 10 ∉ key) (flags length : Nat) (cas : Option Nat) :
    ∃ line, valueText key flags length cas = line ++ [10] ∧ 10 ∉ line := by
  have hdecimal (n : Nat) : (10 : UInt8) ∉ decimal n := not_mem_decimal (by decide)
  have htail : ∃ t, lineTail cas = t ++ [10] ∧ (10 : UInt8) ∉ t := by
    cases cas with
    | none => exact ⟨[13], rfl, by decide⟩
    | some cas => exact ⟨32 :: (decimal cas ++ [13]), by simp [lineTail], by simp [hdecimal]⟩
  obtain ⟨t, ht, hnot⟩ := htail
  refine ⟨ascii "VALUE " ++ (key ++ 32 :: (decimal flags ++ 32 :: (decimal length ++ t))), ?_, ?_⟩
  · simp [valueText, ht]
  · have hvalue : (10 : UInt8) ∉ ascii "VALUE " := by decide
    simp [hvalue, hkey, hdecimal, hnot]

theorem readOneResponse_text (hf : Fills K pending P) (hv : s.valid = true) (hP : P s.memc)
    (hb : s.memc.flags.binaryProtocol = false) {buffer : Bytes} {result : Result} {line rest : Bytes}
    (hu : bytesOf (s.unread pending) = line ++ 10 :: rest) (hline : 10 ∉ line)
    (hsize : line.length + 1 < size)
    (h : ∀ t : St κ, Took pending s (line.length + 1) (s.cursorActive - 1) t → Ensures (textualDispatch K (line ++ 10 :: buffer.drop (line.length + 1)) (line.length + 1) result) t fun reply s' => reply.rc.isFatal = false ∧ Q reply s') :
    Ensures (readOneResponse K size buffer result) s Q := by
  simp only [readOneResponse, responseDecrement, ensures_bind, ensures_modify, ensures_get, hb,
    Bool.false_eq_true, if_false, textualReadOneResponse]
  have hstart : Took pending s 0 (s.cursorActive - 1) _ := .start s (s.cursorActive - 1)
  have hplain := plainLine_line hu hline hsize
  have hu' : bytesOf (s.unread pending) = (line ++ [10]) ++ rest := by simpa using hu
  have hcells : bytesOf ((s.unread pending).take (line.length + 1)) = line ++ [10] := by
    simpa using bytesOf_take hu'
  have hlen : ((s.unread pending).take (line.length + 1)).length = line.length + 1 := by
    have := length_le_of_bytesOf hu'
    simp only [length_append, length_singleton] at this
    exact length_take_of_le this
  refine (memcachedIoReadline_fills hf (by omega) (s := { s with cursorActive := s.cursorActive - 1 })
    hv hP hplain (by simp)).mono fun r t ht => ?_
  obtain ⟨rfl, hadvance, -⟩ := ht
  have htook := hstart.advance (hadvance (by simp))
  rw [hlen, Nat.zero_add] at htook
  simp only [LineEnd.toReturn, ReturnT.isFailed, Bool.false_eq_true, if_false, ensures_bind,
    ensures_modify, hlen]
  have hoverlay : overlay (((s.unread pending).take (line.length + 1)).map (·.byte)) buffer =
      line ++ 10 :: buffer.drop (line.length + 1) := by
    rw [← bytesOf, hcells, overlay]
    simp
  rw [hoverlay]
  refine (h _ (htook.reply _)).mono fun reply u hu => ?_
  simp only [hu.1, Bool.false_eq_true, if_false, ensures_pure]
  exact hu.2

theorem starts_valueText (key : Bytes) (flags length : Nat) (cas : Option Nat) (more : Bytes) :
    starts "VALUE" (valueText key flags length cas ++ more) = true := by
  have hword : ascii "VALUE " = ascii "VALUE" ++ [32] := by decide
  rw [starts, isPrefixOf_iff_prefix, valueText, hword, append_assoc, append_assoc]
  exact prefix_append _ _

theorem Memcached.decrypted_of_no_key {memc : Memcached} (h : memc.hashkit.key = none) (value : Bytes) :
    memc.decrypted value = some value := by
  rw [decrypted, h]

theorem textualValueFetch_value (hf : Fills K pending P) (hv : t.valid = true) (hP : P t.memc)
    {buffer : Bytes} {result : Result} {value rest : Bytes}
    (hparse : parseValue (t.memc.namespace_.getD []).length buffer = (result, some value.length))
    (hvalue : value.length < 2 ^ 32) (hplain : t.memc.decrypted value = some plain)
    (hu : bytesOf (t.unread pending) = (value ++ [13, 10]) ++ rest) :
    Ensures (textualValueFetch K buffer) t fun reply s' =>
      reply = ⟨.success, buffer, { result with value := plain }⟩ ∧
        Advance pending t (value ++ [13, 10]).length s' := by
  have hread : (value.length + 2) % 2 ^ 64 = (value ++ [13, 10]).length := by
    rw [length_append]
    exact Nat.mod_eq_of_lt (Nat.lt_trans (Nat.add_lt_add_right hvalue 2) (by decide))
  have hlimit : ¬allocLimit ≤ (value ++ [13, 10]).length := by
    rw [← hread, allocLimit]
    omega
  simp only [textualValueFetch, ensures_bind, ensures_get, hparse, hread, if_neg hlimit]
  refine (memcachedIoRead_fills hf hv hP (length_le_of_bytesOf hu)).mono fun r u hr => ?_
  obtain ⟨rfl, hadvance⟩ := hr
  have htake : ((t.unread pending).take (value ++ [13, 10]).length).map (·.byte) = value ++ [13, 10] :=
    bytesOf_take hu
  simp only [ReturnT.isFailed, Bool.false_eq_true, if_false, htake, take_left, hplain]
  exact ensures_pure.mpr ⟨rfl, hadvance⟩

/-- An item that was written in the text protocol is read back. -/
theorem readOneResponse_valueBlock (hf : Fills K pending P) (hv : s.valid = true) (hP : P s.memc)
    (hb : s.memc.flags.binaryProtocol = false) (hsize : defaultCommandSize ≤ size) (buffer : Bytes)
    (result : Result) {command : AsciiCmd} (hgraph : ∀ b ∈ hit.key, isGraph b = true)
    (hkey : hit.key.length ≤ maxLineKey) (hplain : s.memc.decrypted hit.body = some plain) {rest : Bytes}
    (hu : bytesOf (s.unread pending) = valueBlock command hit ++ rest) :
    Ensures (readOneResponse K size buffer result) s fun reply s' =>
      reply.rc = .success ∧
      reply.result = { hit.item (s.memc.namespace_.getD []).length ((casOf command hit).getD 0) with
        value := plain } ∧
      Took pending s (valueBlock command hit).length ((s.cursorActive - 1 + 1) % 2 ^ 32) s' := by
  have hword : ∀ b ∈ hit.key, (!(isCntrl b || isSpace b)) = true := fun b hm => by
    simp [isCntrl_of_isGraph (hgraph b hm), isSpace_of_isGraph (hgraph b hm)]
  have hlf : (10 : UInt8) ∉ hit.key := fun hm => absurd (hgraph 10 hm) (by decide)
  have hshort := length_valueText_lt command hkey
  have hcas : ∀ n ∈ casOf command hit, n < 2 ^ 64 := by
    intro n hn
    rw [casOf] at hn
    split at hn
    · cases hn
      exact hit.cas.toNat_lt
    · cases hn
  have hparse (more : Bytes) := parseValue_valueText (s.memc.namespace_.getD []).length hword
    hit.flags.toNat_lt (Nat.lt_trans hit.body_lt (by decide)) hcas hshort more
  obtain ⟨line, htext, hline⟩ :=
    valueText_line hlf hit.flags.toNat hit.body.length (casOf command hit)
  have hstarts (more : Bytes) : starts "VALUE" (line ++ [10] ++ more) = true :=
    htext ▸ starts_valueText ..
  rw [valueBlock_eq, htext, append_assoc] at hu
  rw [valueBlock_eq, htext, length_append, length_append, length_singleton]
  rw [htext] at hshort hparse
  rw [length_append, length_singleton] at hshort
  refine readOneResponse_text hf hv hP hb (by simpa using hu) hline (by omega) fun t ht => ?_
  have hbuffer : line ++ 10 :: buffer.drop (line.length + 1) =
      line ++ [10] ++ buffer.drop (line.length + 1) := by simp
  have hut : bytesOf (t.unread pending) = hit.body ++ [13, 10] ++ rest := by
    have hdrop := bytesOf_drop hu
    rwa [length_append, length_singleton, ← ht.unread] at hdrop
  rw [hbuffer, textualDispatch, if_pos (hstarts _)]
  simp only [responseIncrement, ensures_bind, ensures_modify, ht.cursorActive]
  have hinc := ht.recount ((s.cursorActive - 1 + 1) % 2 ^ 32)
  refine (textualValueFetch_value hf (hinc.valid.trans hv) (hinc.memc ▸ hP)
    (by rw [hinc.memc]; exact hparse _) hit.body_lt (by rw [hinc.memc]; exact hplain) hut).mono
    fun reply u hu => ?_
  obtain ⟨rfl, hadvance⟩ := hu
  exact ⟨rfl, rfl, rfl, hinc.advance hadvance⟩

theorem textualDispatch_end {more : Bytes} {totalRead : Nat} {result : Result} :
    textualDispatch K (69 :: 78 :: 68 :: more) totalRead result =
      return ⟨.end_, 69 :: 78 :: 68 :: more, result⟩ := by
  rfl

theorem readOneResponse_end (hf : Fills K pending P) (hv : s.valid = true) (hP : P s.memc)
    (hb : s.memc.flags.binaryProtocol = false) (hsize : defaultCommandSize ≤ size) (buffer : Bytes)
    (result : Result) {rest : Bytes} (hu : bytesOf (s.unread pending) = ascii "END\r\n" ++ rest) :
    Ensures (readOneResponse K size buffer result) s fun reply s' =>
      reply.rc = .end_ ∧ Took pending s 5 (s.cursorActive - 1) s' := by
  have hend : ascii "END\r\n" = [69, 78, 68, 13] ++ [10] := by decide
  rw [hend, append_assoc] at hu
  have hline : (10 : UInt8) ∉ [69, 78, 68, 13] := by decide
  refine readOneResponse_text hf hv hP hb hu hline (Nat.lt_of_lt_of_le (by decide) hsize) fun t ht => ?_
  exact textualDispatch_end.symm ▸ ensures_pure.mpr ⟨rfl, rfl, ht⟩

/-! ## The binary protocol -/

/-- The first 24 bytes of a response. -/
def Packet.head (p : Packet) : Bytes :=
  [0x81, p.opcode] ++ toBigEndian 2 p.keylen ++ [UInt8.ofNat p.extlen, 0] ++
    toBigEndian 2 p.status.code ++ toBigEndian 4 p.bodylen ++ p.opaque_ ++ toBigEndian 8 p.cas

theorem Packet.bytes_eq (p : Packet) : p.bytes = p.head ++ p.body := rfl

/-- The fields of a packet fit into their places in the header. -/
structure Packet.Fits (p : Packet) : Prop where
  keylen : p.keylen < 2 ^ 16
  extlen : p.extlen < 2 ^ 8
  bodylen : p.bodylen < 2 ^ 32
  opaque_ : p.opaque_.length = 4
  cas : p.cas < 2 ^ 64

theorem Packet.length_head (h : p.Fits) : p.head.length = headerLength := by
  simp [Packet.head, h.opaque_, headerLength]

theorem Status.code_lt (status : Status) : status.code < 2 ^ 16 := by
  cases status <;> decide

/-- The client finds the fields of a header where the server wrote them. -/
theorem Packet.ofBytes_head (h : p.Fits) : Header.ofBytes p.head =
      ⟨0x81, p.opcode, p.keylen, p.extlen, p.status.code, p.bodylen, p.cas⟩ := by
  obtain ⟨a, b, c, d, hopaque⟩ : ∃ a b c d, p.opaque_ = [a, b, c, d] := by
    have hlen := h.opaque_
    match hp : p.opaque_ with
    | [a, b, c, d] => exact ⟨a, b, c, d, rfl⟩
    | [] | [_] | [_, _] | [_, _, _] | _ :: _ :: _ :: _ :: _ :: _ => simp [hp] at hlen
  have hkeylen : bigEndian (toBigEndian 2 p.keylen) = p.keylen := bigEndian_toBigEndian_of_lt h.keylen
  have hstatus : bigEndian (toBigEndian 2 p.status.code) = p.status.code :=
    bigEndian_toBigEndian_of_lt p.status.code_lt
  have hbodylen : bigEndian (toBigEndian 4 p.bodylen) = p.bodylen := bigEndian_toBigEndian_of_lt h.bodylen
  have hcas : bigEndian (toBigEndian 8 p.cas) = p.cas := bigEndian_toBigEndian_of_lt h.cas
  have hextlen : (UInt8.ofNat p.extlen).toNat = p.extlen := by
    rw [UInt8.toNat_ofNat', Nat.mod_eq_of_lt h.extlen]
  rw [Packet.head, hopaque]
  simp only [Header.ofBytes, Header.mk.injEq]
  refine ⟨rfl, rfl, hkeylen, hextlen, hstatus, hbodylen, hcas⟩

theorem readPart_fills (hf : Fills K pending P) (hv : t.valid = true) (hP : P t.memc) {part rest : Bytes}
    (hu : bytesOf (t.unread pending) = part ++ rest) (hsize : size = part.length) {onFail : Act κ Reply}
    {f : Bytes → Act κ Reply}
    (h : ∀ u : St κ, Advance pending t part.length u → bytesOf (u.unread pending) = rest → Ensures (f part) u Q) :
    Ensures (readPart K size onFail f) t Q := by
  subst hsize
  simp only [readPart, ensures_bind]
  refine (memcachedSafeRead_fills hf hv hP hu).mono fun r u hr => ?_
  obtain ⟨hrc, hpart, hadvance, hrest⟩ := hr
  rw [if_pos hrc, hpart]
  exact h u hadvance hrest

section

variable (hf : Fills K pending P) (hv : s.valid = true) (hP : P s.memc) (hb : s.memc.flags.binaryProtocol = true)
include hf hv hP hb

/-- The header of a response that reports success is read, and the rest is what it means. -/
theorem readOneResponse_packet {size : Nat} {buffer : Bytes} {result : Result} (hp : p.Fits)
    (hstatus : p.status = .success) {rest : Bytes} (hu : bytesOf (s.unread pending) = p.bytes ++ rest)
    (h : ∀ t : St κ, Took pending s headerLength (s.cursorActive - 1) t → bytesOf (t.unread pending) = p.body ++ rest → Ensures (binarySuccess K ⟨0x81, p.opcode, p.keylen, p.extlen, 0, p.bodylen, p.cas⟩ size buffer result) t fun reply s' => reply.rc.isFatal = false ∧ reply.rc ≠ .fetchNotFinished ∧ Q reply s') :
    Ensures (readOneResponse K size buffer result) s Q := by
  rw [p.bytes_eq, append_assoc] at hu
  have hstart : Took pending s 0 (s.cursorActive - 1) _ := .start s (s.cursorActive - 1)
  have hread := memcachedSafeRead_fills hf (s := { s with cursorActive := s.cursorActive - 1 }) hv hP hu
  rw [p.length_head hp] at hread
  simp only [readOneResponse, responseDecrement, ensures_bind, ensures_modify, ensures_get, hb,
    if_true, binaryReadLoop, binaryReadOneResponse]
  refine hread.mono fun r t hr => ?_
  obtain ⟨hrc, hhead, hadvance, hrest⟩ := hr
  have htook := hstart.advance hadvance
  rw [Nat.zero_add] at htook
  have hcode : p.status.code = 0 := by rw [hstatus]; rfl
  simp only [hrc, ne_eq, not_true_eq_false, if_false, ensures_bind, ensures_modify, hhead,
    p.ofBytes_head hp, hcode, true_or, if_true]
  refine (h _ (htook.reply r.2) hrest).mono fun reply u hreply => ?_
  simp only [if_neg hreply.2.1, ensures_pure, hreply.1, Bool.false_eq_true, if_false]
  exact hreply.2.2

theorem readOneResponse_noop (size : Nat) (buffer : Bytes) (result : Result) (hp : p.Fits)
    (hstatus : p.status = .success) (hopcode : p.opcode = Opcode.noop.toByte) (hbody : p.body = [])
    {rest : Bytes} (hu : bytesOf (s.unread pending) = p.bytes ++ rest) :
    Ensures (readOneResponse K size buffer result) s fun reply s' =>
      reply.rc = .end_ ∧ Took pending s p.bytes.length (s.cursorActive - 1) s' := by
  refine readOneResponse_packet hf hv hP hb hp hstatus hu fun t ht _ => ?_
  have hlen : p.bytes.length = headerLength := by
    rw [p.bytes_eq, hbody, append_nil, p.length_head hp]
  rw [hlen]
  simp only [binarySuccess, hopcode, Opcode.ofByte?, Opcode.toByte]
  exact ensures_pure.mpr ⟨rfl, by simp, rfl, ht⟩

end

/-- The requests whose hits are answered with the key. -/
def getsKey (opcode : UInt8) : Prop := opcode = Opcode.getk.toByte ∨ opcode = Opcode.getkq.toByte

theorem getResponseHandler_fits (hr : r.opaque_.length = 4)
    (hlen : hit.body.length + hit.key.length + 4 < 2 ^ 32) : (getResponseHandler r hit).Fits := by
  constructor
  · simp only [getResponseHandler]
    split
    · decide
    · exact hit.key_lt
  · show 4 < 2 ^ 8
    decide
  · simp only [getResponseHandler]
    split <;> simp <;> omega
  · exact hr
  · exact hit.cas.toNat_lt

/-- Flags, key and value behind the header of a hit are read. -/
theorem binaryValue_hit (hf : Fills K pending P) (hv : t.valid = true) (hP : P t.memc) (opcode : UInt8)
    (cas : Nat) (hlen : hit.body.length + hit.key.length + 4 < 2 ^ 32)
    (hns : (t.memc.namespace_.getD []).length < hit.key.length) (buffer : Bytes) {rest : Bytes}
    (hu : bytesOf (t.unread pending) = toBigEndian 4 hit.flags.toNat ++ (hit.key ++ (hit.body ++ rest))) :
    Ensures (binaryValue K ⟨0x81, opcode, hit.key.length, 4, 0,
        hit.body.length + hit.key.length + 4, cas⟩ buffer) t fun reply s' =>
      reply = ⟨.success, buffer, hit.item (t.memc.namespace_.getD []).length cas⟩ ∧
        Advance pending t (4 + hit.key.length + hit.body.length) s' := by
  have hflags : bigEndian (toBigEndian 4 hit.flags.toNat) = hit.flags.toNat :=
    bigEndian_toBigEndian_of_lt hit.flags.toNat_lt
  have hbody : (hit.body.length + hit.key.length + 4 + 2 ^ 33 - 4 - hit.key.length) % 2 ^ 32 =
      hit.body.length := by
    omega
  rw [binaryValue]
  refine readPart_fills hf hv hP hu (length_toBigEndian 4).symm fun u hadvance hu => ?_
  rw [length_toBigEndian] at hadvance
  refine readPart_fills hf (hadvance.valid.trans hv) (hadvance.memc ▸ hP) hu rfl fun v hadvance' hv' => ?_
  have hread := hadvance.trans hadvance'
  have hmemc : v.memc = t.memc := hread.memc
  simp only [ensures_bind, ensures_get, hmemc]
  rw [if_neg (by omega)]
  refine readPart_fills hf (hread.valid.trans hv) (hmemc ▸ hP) hv' hbody fun w hadvance'' _ => ?_
  simp only [binaryStatus, ensures_bind, hflags]
  exact ensures_pure.mpr (ensures_pure.mpr ⟨rfl, hread.trans hadvance''⟩)

/-- An item that was written in the binary protocol is read back. -/
theorem readOneResponse_hit (hf : Fills K pending P) (hv : s.valid = true) (hP : P s.memc)
    (hb : s.memc.flags.binaryProtocol = true) (size : Nat) (buffer : Bytes) (result : Result)
    (hopcode : getsKey r.opcode) (hr : r.opaque_.length = 4)
    (hlen : hit.body.length + hit.key.length + 4 < 2 ^ 32)
    (hns : (s.memc.namespace_.getD []).length < hit.key.length) {rest : Bytes}
    (hu : bytesOf (s.unread pending) = (getResponseHandler r hit).bytes ++ rest) :
    Ensures (readOneResponse K size buffer result) s fun reply s' => reply.rc = .success ∧
      reply.result = hit.item (s.memc.namespace_.getD []).length hit.cas.toNat ∧
      Took pending s (getResponseHandler r hit).bytes.length
        (if r.opcode = Opcode.getkq.toByte then (s.cursorActive - 1 + 1) % 2 ^ 32
        else s.cursorActive - 1) s' := by
  have hkey : (if r.opcode = Cmd.get ∨ r.opcode = Cmd.getq then [] else hit.key) = hit.key :=
    if_neg (by rcases hopcode with h | h <;> rw [h] <;> decide)
  have hbody : (getResponseHandler r hit).body =
      toBigEndian 4 hit.flags.toNat ++ (hit.key ++ hit.body) := by
    simp [getResponseHandler, hkey]
  have hfits := getResponseHandler_fits hr hlen
  have hbytes : (getResponseHandler r hit).bytes.length =
      headerLength + (4 + hit.key.length + hit.body.length) := by
    rw [Packet.bytes_eq, hbody, length_append, Packet.length_head hfits]
    simp only [length_append, length_toBigEndian]
    omega
  rw [hbytes]
  refine readOneResponse_packet hf hv hP hb hfits rfl hu fun t ht hrest => ?_
  rw [hbody, append_assoc, append_assoc] at hrest
  simp only [getResponseHandler, hkey]
  -- `GETKQ` only differs in that the response was not counted.
  have hvalue {u : St κ} {count : Nat} (hu : Took pending s headerLength count u)
      (hrest : bytesOf (u.unread pending) =
        toBigEndian 4 hit.flags.toNat ++ (hit.key ++ (hit.body ++ rest))) :
      Ensures (binaryValue K ⟨0x81, r.opcode, hit.key.length, 4, 0,
          hit.body.length + hit.key.length + 4, hit.cas.toNat⟩ buffer) u fun reply s' =>
        reply.rc.isFatal = false ∧ reply.rc ≠ .fetchNotFinished ∧ reply.rc = .success ∧
          reply.result = hit.item (s.memc.namespace_.getD []).length hit.cas.toNat ∧
          Took pending s (headerLength + (4 + hit.key.length + hit.body.length)) count s' := by
    refine (binaryValue_hit hf (hu.valid.trans hv) (hu.memc ▸ hP) r.opcode hit.cas.toNat hlen
      (hu.memc ▸ hns) buffer hrest).mono fun reply v hr => ?_
    obtain ⟨rfl, hadvance⟩ := hr
    exact ⟨rfl, by simp, rfl, by rw [hu.memc], hu.advance hadvance⟩
  rcases hopcode with h | h
  · rw [if_neg (by rw [h]; decide)]
    have hsuccess (header : Header) (ho : header.opcode = Opcode.getk.toByte) :
        binarySuccess K header size buffer result = binaryValue K header buffer := by
      rw [binarySuccess, ho]
      rfl
    rw [hsuccess _ h]
    exact hvalue ht hrest
  · rw [if_pos h]
    have hsuccess (header : Header) (ho : header.opcode = Opcode.getkq.toByte) :
        binarySuccess K header size buffer result =
          (responseIncrement >>= fun _ => binaryValue K header buffer) := by
      rw [binarySuccess, ho]
      rfl
    rw [hsuccess _ h]
    simp only [responseIncrement, ensures_bind, ensures_modify, ht.cursorActive]
    exact hvalue (ht.recount _) hrest

/-! ## From the server to the client -/

/-- Whatever client without an encoding key the bytes are next to be read by, it takes them from the
stream, all of them and no more, and has the item. -/
def ReadsBack (binary : Bool) (ns spooled : Bytes) (item : Result) : Prop :=
  ∀ {κ : Type} (K : Kernel κ) (pending : κ → List InByte) (P : Memcached → Prop),
    Fills K pending P → ∀ s : St κ, s.valid = true → P s.memc →
    s.memc.flags.binaryProtocol = binary → s.memc.namespace_.getD [] = ns →
    s.memc.hashkit.key = none → ∀ (size : Nat) (buffer : Bytes) (result : Result) (rest : Bytes), defaultCommandSize ≤ size →
    bytesOf (s.unread pending) = spooled ++ rest →
    Ensures (readOneResponse K size buffer result) s fun reply s' =>
      reply.rc = .success ∧ reply.result = item ∧ bytesOf (s'.unread pending) = rest ∧
        s'.valid = true

theorem Took.rest {s' : St κ} {spooled rest : Bytes} {count : Nat}
    (h : Took pending s spooled.length count s') (hu : bytesOf (s.unread pending) = spooled ++ rest) :
    bytesOf (s'.unread pending) = rest := by
  rw [h.unread, bytesOf_drop hu]

/-- What the server library spools for a hit is read back by the client library as the item, in the
text protocol and in the binary protocol. -/
theorem get_responses_read_back {ns key : Bytes} {hit : Hit} (hkey : hit.key = ns ++ key)
    (hne : key ≠ []) (hlen : hit.key.length ≤ 240) (hbody : hit.body.length < 2 ^ 31) :
    (∀ t : Serving σ, t.mute = false → t.asciiCommand = .get ∨ t.asciiCommand = .gets →
      (∀ b ∈ hit.key, isGraph b = true) →
      ∃ spooled, (asciiGetResponseHandler hit t).spooled = t.spooled ++ spooled ∧
        ReadsBack false ns spooled
          { itemKey := key, itemFlags := hit.flags.toNat
            itemCas := if t.asciiCommand = .gets then hit.cas.toNat else 0, value := hit.body }) ∧
    ∀ mem : Bytes, headerLength ≤ mem.length → getsKey (ofBytes mem).opcode →
      ReadsBack true ns (getResponseHandler (.ofBytes mem) hit).bytes
        { itemKey := key, itemFlags := hit.flags.toNat, itemCas := hit.cas.toNat
          value := hit.body } := by
  have hdrop : hit.key.drop ns.length = key := by rw [hkey, drop_left]
  have hlonger : ns.length < hit.key.length := by
    rw [hkey, length_append]
    exact Nat.lt_add_of_pos_right (length_pos_iff.mpr hne)
  constructor
  · intro t hmute _ hgraph
    have happends := appends_valueBlock (s := t) hlen fun b hb => keyByte_of_isGraph (hgraph b hb)
    refine ⟨valueBlock t.asciiCommand hit, happends.heard hmute, ?_⟩
    intro κ K pending P hf s hv hP hb hns hplain size buffer result rest hsize hu
    refine (readOneResponse_valueBlock hf hv hP hb hsize buffer result hgraph
      (Nat.le_trans hlen (by decide)) (Memcached.decrypted_of_no_key hplain _) hu).mono
      fun reply s' hr => ?_
    obtain ⟨hrc, hresult, htook⟩ := hr
    refine ⟨hrc, ?_, htook.rest hu, htook.valid.trans hv⟩
    rw [hresult, hns, Hit.item, hdrop, casOf]
    split <;> rfl
  · intro mem hmem hopcode κ K pending P hf s hv hP hb hns _ size buffer result rest _ hu
    have hopaque : (ofBytes mem).opaque_.length = 4 := by
      simp only [ofBytes, slice, length_take, length_drop, headerLength] at *
      omega
    refine (readOneResponse_hit hf hv hP hb size buffer result hopcode hopaque (by omega)
      (hns ▸ hlonger) hu).mono fun reply s' hr => ?_
    obtain ⟨hrc, hresult, htook⟩ := hr
    refine ⟨hrc, ?_, htook.rest hu, htook.valid.trans hv⟩
    rw [hresult, hns, Hit.item, hdrop]

theorem get_responses_read_back_getk :
    ReadsBack true [110, 58]
      [0x81, 0x0c, 0, 3, 4, 0, 0, 0, 0, 0, 0, 9, 0, 7, 0, 0, 0, 0, 0, 0, 0, 0, 0, 42,
        0, 0, 0, 5, 110, 58, 107, 1, 2]
      { itemKey := [107], itemFlags := 5, itemCas := 42, value := [1, 2] } :=
  (@get_responses_read_back Unit [110, 58] [107] ⟨[110, 58, 107], [1, 2], 5, 42, by decide, by decide⟩
    rfl (by decide) (by decide) (by decide)).2 (requestHeader .getk 7 3 0 3 0 ++ [110, 58, 107])
    (by decide) (.inl rfl)

end LM
