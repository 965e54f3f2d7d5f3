import LibMemcached.Impl.Config
import LibMemcached.Proof.Encoding
import LibMemcached.Proof.Freshness
import LibMemcached.Proof.Redistribution

/-!
# The servers of a configuration string

A server of a configuration string is read if its name is scanned as a host name (`Scans`): the rule for
names asks for three characters, and a name that is a keyword is scanned as that (`argmax_keyword`,
`scan_name_fails`). One server after the other is then read and added (`parse_servers`, `execute_servers`). A text
of `2 ^ 32` bytes is cut, and with the blanks of its end the servers behind them are lost (`length_parse_le`).
-/

namespace LM.Csl

open List Memcached

/-- Letters, digits, and hyphens and dots inside, with a letter. -/
def IsHostname (name : Bytes) : Prop :=
  name.length ≤ 1000 ∧ (∀ b ∈ name, isAlnum b = true ∨ b = 45 ∨ b = 46) ∧ name.head?.any isAlnum = true ∧
    name.getLast?.any isAlnum = true ∧ ∃ b ∈ name, isAlpha b = true

/-- A server as the string names it. -/
structure Entry where
  name : Bytes
  port : Option Nat
  weight : Option Nat
  isHostname : IsHostname name
  port_range : ∀ n ∈ port, 1 ≤ n ∧ n ≤ 65535
  weight_range : ∀ n ∈ weight, 1 ≤ n ∧ n ≤ 99999

def Entry.portText (e : Entry) : Bytes := (e.port.map fun n => 58 :: decimal n).getD []

def Entry.weightText (e : Entry) : Bytes := (e.weight.map fun n => 47 :: 63 :: decimal n).getD []

def Entry.text (e : Entry) : Bytes := ascii "--SERVER=" ++ (e.name ++ (e.portText ++ e.weightText))

/-- The entries behind the first one. -/
def tailText (entries : List Entry) : Bytes := entries.flatMap fun e => 32 :: e.text

def listText : List Entry → Bytes
  | [] => []
  | e :: entries => e.text ++ tailText entries

/-- Whatever the other statements do, the string is accepted, and a new client has just these servers. -/
def NamesServers (entries : List Entry) : Prop :=
  ∀ (apply : Memcached → Statement → ReturnT × Memcached) (H : Hashkit.Hashes) (now : Nat), ∃ memc,
    memcachedParseConfiguration apply H now .create (listText entries) = (.success, memc) ∧
      memc.servers.map (fun s => (s.hostname, s.port.toNat, s.weight.toNat)) =
        entries.map fun e => (e.name, e.port.getD 11211, e.weight.getD 1)

/-- The name has three characters and is no keyword. -/
def Scans (name : Bytes) : Prop :=
  3 ≤ name.length ∧ ∀ p ∈ options ++ methods, lower (ascii p.2) ≠ lower name

/-! ## Rules -/

variable {bol isServer : Bool} {text w rest : Bytes} {kind k : Kind} {e : Entry} {b : UInt8} {n : Nat}
  {fuel : Nat} {literal : String} {v : Word} {t : Token}

/-- The token of the rule that matches most of the text. -/
theorem scan_token (hw : w ≠ []) (hline : 10 ∉ w)
    (h : order.argmax (fun kind => kind.length bol (w ++ rest)) = some kind)
    (hlen : kind.length bol (w ++ rest) = w.length) (ht : kind.token isServer w = some t) :
    scan bol isServer (w ++ rest) = t :: scan false (t.isServer isServer) rest := by
  have hlast : (w.getLast? == some 10) = false := by
    rw [beq_eq_false_iff_ne]
    exact fun h => hline (mem_of_getLast? h)
  have hne : w ++ rest ≠ [] := by simp [hw]
  have hpos := length_pos_iff.mpr hw
  rw [scan, dif_neg hne, h]
  simp only [Option.getD_some, hlen, Nat.max_eq_right hpos, take_left, drop_left, ht, hlast]

theorem argmax_eq (hmem : kind ∈ order) (h : ∀ k ∈ order, k ≠ kind → k.length bol text < kind.length bol text) :
    order.argmax (fun kind => kind.length bol text) = some kind := by
  refine mem_argmax_iff.mpr ⟨hmem, fun k hk => ?_, fun k hk hle => ?_⟩
  · by_cases heq : k = kind
    · rw [heq]
    · exact Nat.le_of_lt (h k hk heq)
  · by_cases heq : k = kind
    · rw [heq]
    · exact absurd hle (Nat.not_le_of_lt (h k hk heq))

theorem word_mem_order : Kind.word v literal ∈ order ↔ (v, literal) ∈ options ++ methods := by
  simp [order]

/-- A word that matches agrees with the text as far as it goes. -/
theorem lower_take_of_word (h : (Kind.word v literal).length bol text ≠ 0) (n : Nat) :
    lower ((ascii literal).take n) = lower (text.take (min n (ascii literal).length)) := by
  have heq : lower (text.take (ascii literal).length) = lower (ascii literal) := by
    by_contra hne
    simp [Kind.length, hne] at h
  rw [lower, map_take, ← lower, ← heq, lower, ← map_take, take_take, lower]

theorem length_word_le (v : Word) (literal : String) :
    (Kind.word v literal).length bol text ≤ (ascii literal).length := by
  rw [Kind.length]
  split
  · exact Nat.le_refl _
  · exact Nat.zero_le _

/-- Nothing but the rules for single characters, ports, weights and blanks starts with such a byte. -/
theorem length_eq_zero_of_mark (hb : b ∈ [58, 47, 32]) (hmem : kind ∈ order)
    (hkind : kind ∉ [.char, .port, .weight, .unknown]) : kind.length bol (b :: rest) = 0 := by
  have hword (v : Word) (literal : String) (hv : Kind.word v literal ∈ order) :
      (Kind.word v literal).length bol (b :: rest) = 0 := by
    by_contra h
    have htake := lower_take_of_word h 1
    have hfirst : ∀ p ∈ options ++ methods, ∀ b ∈ ([58, 47, 32] : Bytes),
        (ascii p.2).length ≠ 0 ∧ lower ((ascii p.2).take 1) ≠ lower [b] := by decide +kernel
    obtain ⟨hlen, hne⟩ := hfirst _ (word_mem_order.mp hv) b hb
    rw [Nat.min_eq_left (Nat.one_le_iff_ne_zero.mpr hlen)] at htake
    exact hne htake
  simp only [mem_cons, not_mem_nil, or_false] at hb
  cases kind with
  | word v literal => exact hword v literal hmem
  | _ => rcases hb with rfl | rfl | rfl <;> revert hkind <;>
      simp [Kind.length, upTo, dotted, isAlnum, isAlpha, isDigit]

theorem scan_blank : scan bol isServer (32 :: rest) = .char 32 :: scan false false rest := by
  have hone (k : Kind) (hk : k ∈ order) : k.length bol (32 :: rest) ≤ 1 := by
    by_cases h : k ∈ [.char, .port, .weight, .unknown]
    · simp only [mem_cons, not_mem_nil, or_false] at h
      rcases h with rfl | rfl | rfl | rfl <;> simp [Kind.length, upTo, marked]
    · rw [length_eq_zero_of_mark (by decide) hk h]
      exact Nat.zero_le _
  have hchar : order.argmax (fun k => k.length bol ([32] ++ rest)) = some .char :=
    mem_argmax_iff.mpr ⟨by decide, hone, fun k _ _ => Nat.zero_le _⟩
  exact scan_token (by decide) (by decide) hchar rfl rfl

theorem upTo_decimal (hn : n < 10 ^ 5) (h : EndsNumber rest) :
    upTo 5 isDigit (decimal n ++ rest) = (decimal n).length := by
  have hlen : (decimal n).length ≤ 5 := (length_decimal_le_iff (by decide)).mpr hn
  have hends : EndsNumber (rest.take (5 - (decimal n).length)) := by
    unfold EndsNumber at h ⊢
    cases rest with
    | nil => simp
    | cons b rest => cases 5 - (decimal n).length <;> simp_all
  rw [upTo, take_append, take_of_length_le hlen, takeWhile_decimal hends]

theorem scan_marked {mark : Bytes} (hmark : kind = .port ∧ mark = [58] ∨ kind = .weight ∧ mark = [47, 63])
    (hn : n < 10 ^ 5) (h : EndsNumber rest) (ht : kind.token isServer (mark ++ decimal n) = some t) :
    scan bol isServer (mark ++ decimal n ++ rest) = t :: scan false (t.isServer isServer) rest := by
  have hpos := length_pos_iff.mpr (decimal_ne_nil n)
  have hline : 10 ∉ decimal n := not_mem_decimal rfl
  have hlen : kind.length bol (mark ++ decimal n ++ rest) = (mark ++ decimal n).length := by
    rcases hmark with ⟨rfl, rfl⟩ | ⟨rfl, rfl⟩ <;> simp [Kind.length, marked, upTo_decimal hn h, decimal_ne_nil] <;>
      omega
  refine scan_token (by simp [decimal_ne_nil]) ?_ (argmax_eq ?_ fun k hk hne => ?_) hlen ht
  · rcases hmark with ⟨-, rfl⟩ | ⟨-, rfl⟩ <;> simp [hline]
  · rcases hmark with ⟨rfl, -⟩ | ⟨rfl, -⟩ <;> decide
  · rw [hlen]
    by_cases hk' : k ∈ [.char, .port, .weight, .unknown]
    · simp only [mem_cons, not_mem_nil, or_false] at hk'
      rcases hmark with ⟨rfl, rfl⟩ | ⟨rfl, rfl⟩ <;> rcases hk' with rfl | rfl | rfl | rfl <;>
        simp_all [Kind.length, upTo, marked]
    · rcases hmark with ⟨-, rfl⟩ | ⟨-, rfl⟩ <;> simp only [cons_append, nil_append] <;>
        rw [length_eq_zero_of_mark (by decide) hk hk'] <;> simp

theorem scan_port (hn : n < 10 ^ 5) (h : EndsNumber rest) :
    scan bol isServer (58 :: (decimal n ++ rest)) = .port n :: scan false isServer rest :=
  scan_marked (.inl ⟨rfl, rfl⟩) hn h (by simp [Kind.token, digitsValue_decimal])

theorem scan_weight (hn : n < 10 ^ 5) (h : EndsNumber rest) :
    scan bol isServer (47 :: 63 :: (decimal n ++ rest)) = .weight n :: scan false isServer rest :=
  scan_marked (.inr ⟨rfl, rfl⟩) hn h (by simp [Kind.token, digitsValue_decimal])

/-! ## The option -/

theorem scan_server : scan bol isServer (ascii "--SERVER=" ++ rest) = .word .server :: scan false true rest := by
  have hword (v : Word) (literal : String) (hv : Kind.word v literal ∈ order)
      (hne : Kind.word v literal ≠ .word .server "--SERVER=") :
      (Kind.word v literal).length bol (ascii "--SERVER=" ++ rest) = 0 := by
    have hfour : ∀ p ∈ options ++ methods, p = (.server, "--SERVER=") ∨
        lower ((ascii p.2).take 4) ≠ lower ((ascii "--SERVER=").take (min 4 (ascii p.2).length)) := by decide +kernel
    by_contra h
    have htake := lower_take_of_word h 4
    rw [take_append_of_le_length (Nat.le_trans (Nat.min_le_left _ _) (by decide))] at htake
    rcases hfour _ (word_mem_order.mp hv) with heq | hother
    · cases heq
      exact hne rfl
    · exact hother htake
  have hlen : (Kind.word .server "--SERVER=").length bol (ascii "--SERVER=" ++ rest) = 9 := rfl
  refine scan_token (by decide) (by decide) (argmax_eq (by decide) fun k hk hne => ?_) hlen rfl
  rw [hlen]
  have htext : ascii "--SERVER=" ++ rest = 45 :: 45 :: 83 :: 69 :: 82 :: 86 :: 69 :: 82 :: 61 :: rest := rfl
  cases k with
  | word v literal =>
    rw [hword v literal hk hne]
    decide
  | _ => rw [htext]; simp [Kind.length, upTo, marked, dotted, isAlnum, isAlpha, isDigit]

/-! ## Names -/

theorem isNameByte_of_isHostname (h : IsHostname w) (hb : b ∈ w) : isNameByte b = true := by
  rcases h.2.1 b hb with h | rfl | rfl
  · simp [isNameByte, h]
  · rfl
  · rfl

theorem isHostname_cons (h : IsHostname w) : ∃ b more, w = b :: more ∧ isAlnum b = true := by
  cases w with
  | nil => exact absurd h.2.2.1 (by decide)
  | cons b more => exact ⟨b, more, rfl, h.2.2.1⟩

theorem isAlpha_of_isDigit (b : UInt8) : isDigit b = true → isAlpha b = false :=
  forall_byte (P := fun b => isDigit b = true → isAlpha b = false) (by decide +kernel) b

theorem of_mem_take_upTo {p : UInt8 → Bool} (hb : b ∈ text.take (upTo n p text)) : p b = true := by
  have hprefix := ( takeWhile_prefix p (l := text.take n)).trans ( take_prefix n text)
  rw [upTo, ← prefix_iff_eq_take.mp hprefix] at hb
  exact (all_eq_true.mp all_takeWhile) b hb

theorem isAlpha_of_mem_dotted {m : Nat} (hb : b ∈ text.take (dotted m text)) : isAlpha b = false := by
  induction m generalizing text with
  | zero => exact isAlpha_of_isDigit b (of_mem_take_upTo hb)
  | succ m ih =>
    rw [dotted] at hb
    split at hb
    · next hdot =>
      rw [take_add, take_add_one, hdot.2.1, mem_append, mem_append] at hb
      rcases hb with (hb | hb) | hb
      · exact isAlpha_of_isDigit b (of_mem_take_upTo hb)
      · rw [mem_singleton.mp hb]
        rfl
      · exact ih hb
    · cases hb

/-- The text behind a name. -/
def Ends (rest : Bytes) : Prop := rest.head?.all [58, 47, 32].contains

section Name

variable (h : IsHostname w) (hrest : Ends rest)
include h hrest

theorem takeWhile_name : (w ++ rest).takeWhile isNameByte = w := by
  rw [takeWhile_append_of_pos fun b hb => isNameByte_of_isHostname h hb]
  cases rest with
  | nil => simp
  | cons b rest =>
    have hb : isNameByte b = false := by
      have hmark : b = 58 ∨ b = 47 ∨ b = 32 := by simpa [Ends] using hrest
      rcases hmark with rfl | rfl | rfl <;> rfl
    simp [hb]

theorem length_hostname : Kind.hostname.length bol (w ++ rest) = if 3 ≤ w.length then w.length else 0 := by
  obtain ⟨b, more, hw, hb⟩ := isHostname_cons h
  have hlast : w.reverse.dropWhile (!isAlnum ·) = w.reverse := by
    have hl := h.2.2.2.1
    rw [← List.head?_reverse] at hl
    cases hr : w.reverse with
    | nil => rfl
    | cons c _ =>
      rw [hr] at hl
      rw [dropWhile_cons_of_neg (by simpa using hl)]
  rw [Kind.length, takeWhile_name h hrest, hlast, length_reverse]
  simp [hw, hb]

/-- The rules but those for words match less than a name, or a single character. -/
theorem length_lt_of_name (hne : k ≠ .hostname) (hword : ∀ v literal, k ≠ .word v literal) :
    k.length bol (w ++ rest) < max 2 w.length := by
  obtain ⟨b, more, hw, hb⟩ := isHostname_cons h
  have hmarks (c : UInt8) (hc : isAlnum c = false) : b ≠ c ∧ c ≠ b :=
    ⟨fun heq => by simp [← heq, hb] at hc, fun heq => by simp [heq, hb] at hc⟩
  -- a match without a letter ends before the name does
  have hletter {n : Nat} (hn : ∀ c ∈ (w ++ rest).take n, isAlpha c = false) : n < max 2 w.length := by
    obtain ⟨c, hc, halpha⟩ := h.2.2.2.2
    refine Nat.lt_of_lt_of_le (Nat.lt_of_not_le fun hle => ?_) (Nat.le_max_right _ _)
    have hmem : c ∈ (w ++ rest).take n := by
      rw [take_append, take_of_length_le hle]
      exact mem_append_left _ hc
    rw [hn c hmem] at halpha
    cases halpha
  cases k with
  | hostname => exact absurd rfl hne
  | word v literal => exact absurd rfl (hword v literal)
  | number =>
    refine hletter fun c hc => isAlpha_of_isDigit c ?_
    rw [Kind.length, ← prefix_iff_eq_take.mp ( takeWhile_prefix _)] at hc
    exact (all_eq_true.mp all_takeWhile) c hc
  | ipAddress => exact hletter fun c => isAlpha_of_mem_dotted
  | quotedString =>
    have hquote : (w ++ rest)[upTo 1 [76, 108].contains (w ++ rest)]? ≠ some 34 := by
      have hle : upTo 1 [76, 108].contains (w ++ rest) ≤ w.length := by
        refine Nat.le_trans ( takeWhile_prefix _).length_le ?_
        simp [hw]
      rcases Nat.lt_or_eq_of_le hle with hlt | heq
      · rw [List.getElem?_append_left hlt]
        exact fun hsome => absurd (h.2.1 34 (mem_of_getElem? hsome)) (by decide)
      · rw [heq, List.getElem?_append_right (Nat.le_refl _), Nat.sub_self, ← List.head?_eq_getElem?]
        rintro hsome
        rw [Ends, hsome] at hrest
        exact absurd hrest (by decide)
    simp [Kind.length, hquote]
  | _ =>
    rw [hw]
    simp [Kind.length, upTo, marked, hmarks 61 rfl, hmarks 44 rfl, hmarks 32 rfl, hmarks 58 rfl, hmarks 47 rfl,
      hmarks 9 rfl, hmarks 13 rfl, hmarks 10 rfl, hmarks 35 rfl, hmarks 45 rfl]

theorem word_of_name (hmem : Kind.word v literal ∈ order)
    (hlen : (Kind.word v literal).length bol (w ++ rest) ≠ 0) :
    (Kind.word v literal).length bol (w ++ rest) < w.length ∨ lower (ascii literal) = lower w := by
  obtain ⟨b, more, hw, hb⟩ := isHostname_cons h
  have htable : ∀ p ∈ options ++ methods, (ascii p.2).length ≠ 0 ∧
      (lower ((ascii p.2).take 1) = [45] ∨ ∀ c ∈ ([58, 47, 32] : Bytes), lower [c] = [c] ∧ c ∉ lower (ascii p.2)) := by
    decide +kernel
  obtain ⟨hpos, hdash | hmark⟩ := htable _ (word_mem_order.mp hmem)
  · -- no name starts with a dash
    have hfirst := lower_take_of_word hlen 1
    rw [hdash, Nat.min_eq_left (Nat.one_le_iff_ne_zero.mpr hpos), hw] at hfirst
    exact absurd hfirst.symm (forall_byte (P := fun b => isAlnum b = true → lower [b] ≠ [45]) (by decide +kernel) b hb)
  · have hall := lower_take_of_word hlen (ascii literal).length
    rw [take_length, Nat.min_self] at hall
    rcases Nat.lt_trichotomy (ascii literal).length w.length with hlt | heq | hgt
    · exact .inl (Nat.lt_of_le_of_lt (length_word_le v literal) hlt)
    · right
      rw [hall, heq, take_left]
    · exfalso
      rw [take_append, take_of_length_le (Nat.le_of_lt hgt)] at hall
      cases rest with
      | nil =>
        have := congrArg List.length hall
        simp [lower] at this
        omega
      | cons c rest =>
        obtain ⟨hc, hnot⟩ := hmark c (by simpa [Ends] using hrest)
        apply hnot
        obtain ⟨n, hn⟩ : ∃ n, (ascii literal).length - w.length = n + 1 := ⟨_, (Nat.succ_pred (by omega)).symm⟩
        rw [hall, hn, take_succ_cons, lower, map_append]
        refine mem_append_right _ (mem_map.mpr ⟨c, mem_cons_self, ?_⟩)
        simpa [lower] using hc

/-- A name that is long enough and no keyword is scanned as a name. -/
theorem scan_name (hname : Scans w) : scan bol true (w ++ rest) = .hostname w :: scan false true rest := by
  have hlen : Kind.hostname.length bol (w ++ rest) = w.length := by
    rw [length_hostname h hrest, if_pos hname.1]
  refine scan_token ?_ (fun hline => absurd (h.2.1 10 hline) (by decide)) (argmax_eq (by decide) fun k hk hne => ?_)
    hlen rfl
  · rintro rfl
    exact absurd hname.1 (by decide)
  · rw [hlen]
    by_cases hword : ∃ v literal, k = .word v literal
    · obtain ⟨v, literal, rfl⟩ := hword
      by_cases hzero : (Kind.word v literal).length bol (w ++ rest) = 0
      · exact hzero ▸ Nat.lt_of_lt_of_le (by decide) hname.1
      · rcases word_of_name h hrest hk hzero with hlt | hkeyword
        · exact hlt
        · exact absurd hkeyword (hname.2 _ (word_mem_order.mp hk))
    · push Not at hword
      rw [← Nat.max_eq_right (Nat.le_of_succ_le hname.1)]
      exact length_lt_of_name h hrest hne hword

/-- A keyword matches as much as the rule for names, and it comes first. -/
theorem argmax_keyword (hlen : 3 ≤ w.length) {p : Word × String} (hp : p ∈ options ++ methods)
    (heq : lower (ascii p.2) = lower w) (hmax : kind ∈ order.argmax fun k => k.length bol (w ++ rest)) :
    kind ∉ [.blank, .ipAddress, .hostname] := by
  have hmem : Kind.word p.1 p.2 ∈ order := word_mem_order.mpr hp
  have hword : (Kind.word p.1 p.2).length bol (w ++ rest) = w.length := by
    have hsame : (ascii p.2).length = w.length := by simpa [lower] using congrArg List.length heq
    rw [Kind.length, hsame, take_left, if_pos heq.symm]
  have hle := le_of_mem_argmax (f := fun k : Kind => k.length bol (w ++ rest)) hmem hmax
  intro hkind
  by_cases hhost : kind = .hostname
  · have hindex := index_of_argmax (f := fun k : Kind => k.length bol (w ++ rest)) hmax hmem
      (by simp [hhost, hword, length_hostname h hrest, hlen])
    have horder : ∀ p ∈ options ++ methods, order.idxOf (.word p.1 p.2) < order.idxOf .hostname := by decide +kernel
    rw [hhost] at hindex
    exact absurd hindex (Nat.not_le_of_lt (horder p hp))
  · have hlt : kind.length bol (w ++ rest) < max 2 w.length :=
      length_lt_of_name h hrest hhost (by rintro v literal rfl; simp at hkind)
    rw [Nat.max_eq_right (by omega)] at hlt
    omega

/-- Nothing but a single character matches a shorter name. -/
theorem argmax_short (hlen : w.length < 3) (hmax : kind ∈ order.argmax fun k => k.length bol (w ++ rest)) :
    kind ∉ [.blank, .ipAddress, .hostname] := by
  obtain ⟨b, more, hw, hb⟩ := isHostname_cons h
  have hmark (c : UInt8) (hc : isAlnum c = false) : b ≠ c := fun heq => by simp [← heq, hb] at hc
  have hunknown : Kind.unknown.length bol (w ++ rest) = 1 := by simp [hw, Kind.length, upTo, hmark 10 rfl]
  have hle := le_of_mem_argmax (f := fun k : Kind => k.length bol (w ++ rest))
    (show Kind.unknown ∈ order by decide) hmax
  rw [hunknown] at hle
  intro hkind
  simp only [mem_cons, not_mem_nil, or_false] at hkind
  rcases hkind with rfl | rfl | rfl
  · simp [hw, Kind.length, upTo, hmark 9 rfl, hmark 13 rfl, hmark 10 rfl] at hle
  · have hlt : Kind.ipAddress.length bol (w ++ rest) < max 2 w.length := length_lt_of_name h hrest nofun nofun
    have hfew : dotted 3 (w ++ rest) = 0 ∨ 3 ≤ dotted 3 (w ++ rest) := by
      rw [dotted]
      split
      · omega
      · exact .inl rfl
    rw [Kind.length] at hlt hle
    omega
  · rw [length_hostname h hrest, if_neg (by omega)] at hle
    cases hle

theorem scan_name_fails (hname : ¬Scans w) : ∃ t rest', scan bol true (w ++ rest) = t :: rest' ∧
    ∀ name, t ≠ .hostname name ∧ t ≠ .ipAddress name := by
  obtain ⟨b, more, hw, -⟩ := isHostname_cons h
  have hsome : order.argmax (fun k => k.length bol (w ++ rest)) ≠ none := argmax_eq_none.not.mpr (by decide)
  obtain ⟨kind, hmax⟩ := Option.ne_none_iff_exists'.mp hsome
  have hkind : kind ∉ [.blank, .ipAddress, .hostname] := by
    by_cases hlen : 3 ≤ w.length
    · obtain ⟨p, hp, heq⟩ : ∃ p ∈ options ++ methods, lower (ascii p.2) = lower w := by
        by_contra hno
        push Not at hno
        exact hname ⟨hlen, hno⟩
      exact argmax_keyword h hrest hlen hp heq hmax
    · exact argmax_short h hrest (by omega) hmax
  have htoken (yytext : Bytes) :
      ∃ t, kind.token true yytext = some t ∧ ∀ name, t ≠ .hostname name ∧ t ≠ .ipAddress name := by
    cases kind <;> simp_all [Kind.token]
  rw [scan, dif_neg (by simp [hw]), hmax]
  obtain ⟨t, ht, hne⟩ := htoken ((w ++ rest).take (max 1 (kind.length bol (w ++ rest))))
  simp only [Option.getD_some, ht]
  exact ⟨t, _, rfl, hne⟩

end Name

/-! ## Statements -/

/-- The tokens of a server. -/
def Entry.tokens (e : Entry) : List Token :=
  .word .server :: .hostname e.name :: ((e.port.map Token.port).toList ++ (e.weight.map Token.weight).toList)

def Entry.statement (e : Entry) : Statement := .server e.name (e.port.getD 11211) (e.weight.getD 1)

/-- What stands behind a server: nothing, or a blank and the next one. -/
def next (entries : List Entry) : Bytes := if entries = [] then [] else 32 :: listText entries

def nextTokens (entries : List Entry) : List Token :=
  if entries = [] then [] else .char 32 :: scan false false (listText entries)

variable {entries : List Entry}

theorem listText_cons : listText (e :: entries) = e.text ++ next entries := by
  cases entries <;> rfl

theorem scan_next : scan false isServer (next entries) = nextTokens entries := by
  unfold next nextTokens
  split
  · rw [scan, dif_pos rfl]
  · exact scan_blank

theorem ends_next : Ends (next entries) ∧ EndsNumber (next entries) := by
  unfold next
  split <;> exact ⟨rfl, rfl⟩

theorem ends_weightText : Ends (e.weightText ++ next entries) ∧ EndsNumber (e.weightText ++ next entries) := by
  unfold Entry.weightText
  cases e.weight with
  | none => exact ends_next
  | some n => exact ⟨rfl, rfl⟩

theorem scan_weightText :
    scan false isServer (e.weightText ++ next entries) = (e.weight.map Token.weight).toList ++ nextTokens entries := by
  unfold Entry.weightText
  cases hw : e.weight with
  | none => exact scan_next
  | some n =>
    have hn := Nat.lt_of_le_of_lt (e.weight_range n hw).2 (show 99999 < 10 ^ 5 by decide)
    exact (scan_weight hn ends_next.2).trans (congrArg _ scan_next)

theorem scan_portText : scan false isServer (e.portText ++ (e.weightText ++ next entries)) =
      (e.port.map Token.port).toList ++ ((e.weight.map Token.weight).toList ++ nextTokens entries) := by
  unfold Entry.portText
  cases hp : e.port with
  | none => exact scan_weightText
  | some n =>
    have hn := Nat.lt_of_le_of_lt (e.port_range n hp).2 (show 65535 < 10 ^ 5 by decide)
    exact (scan_port hn ends_weightText.2).trans (congrArg _ scan_weightText)

theorem ends_portText : Ends (e.portText ++ (e.weightText ++ next entries)) := by
  unfold Entry.portText
  cases e.port with
  | none => exact ends_weightText.1
  | some n => rfl

theorem listText_cons_eq : listText (e :: entries) =
    ascii "--SERVER=" ++ (e.name ++ (e.portText ++ (e.weightText ++ next entries))) := by
  simp [listText_cons, Entry.text]

theorem scan_listText (h : Scans e.name) :
    scan bol isServer (listText (e :: entries)) = e.tokens ++ nextTokens entries := by
  rw [listText_cons_eq, scan_server, scan_name e.isHostname ends_portText h, scan_portText]
  simp [Entry.tokens]

theorem statement_tokens : statement (e.tokens ++ nextTokens entries) = some (e.statement, nextTokens entries) := by
  unfold nextTokens Entry.statement Entry.tokens
  cases e.port <;> cases e.weight <;> split <;> rfl

theorem parse_listText (h : Scans e.name) :
    parse (fuel + 1) (scan bol isServer (listText (e :: entries))) =
      if entries = [] then ([e.statement], true)
      else (e.statement :: (parse fuel (scan false false (listText entries))).1,
        (parse fuel (scan false false (listText entries))).2) := by
  rw [scan_listText h, parse, statement_tokens]
  unfold nextTokens Entry.statement
  by_cases hnil : entries = [] <;> simp [hnil]

theorem parse_servers (hne : entries ≠ []) (h : ∀ e ∈ entries, Scans e.name) (hfuel : entries.length ≤ fuel) :
    parse fuel (scan bol isServer (listText entries)) = (entries.map Entry.statement, true) := by
  induction entries generalizing fuel bol isServer with
  | nil => exact absurd rfl hne
  | cons e entries ih =>
    obtain ⟨fuel, rfl⟩ : ∃ n, fuel = n + 1 := Nat.exists_eq_succ_of_ne_zero (by rintro rfl; cases hfuel)
    rw [parse_listText (h e mem_cons_self)]
    split
    · next hnil => rw [hnil]; rfl
    · next hmore =>
      rw [ih hmore (fun e he => h e (mem_cons_of_mem _ he)) (Nat.le_of_succ_le_succ hfuel)]
      rfl

theorem parse_fails (h : ∃ e ∈ entries, ¬Scans e.name) :
    (parse fuel (scan bol isServer (listText entries))).2 = false := by
  induction entries generalizing fuel bol isServer with
  | nil => simp at h
  | cons e entries ih =>
    cases fuel with
    | zero => rfl
    | succ fuel =>
      by_cases hname : Scans e.name
      · obtain ⟨bad, hbad, hfails⟩ := h
        have hmem : bad ∈ entries := (mem_cons.mp hbad).resolve_left (by rintro rfl; exact hfails hname)
        rw [parse_listText hname, if_neg (ne_nil_of_mem hmem)]
        exact ih ⟨bad, hmem, hfails⟩
      · obtain ⟨t, rest, hscan, hne⟩ := scan_name_fails e.isHostname ends_portText hname
        rw [listText_cons_eq, scan_server, hscan, parse]
        have hnone : statement (.word .server :: t :: rest) = none := by
          cases t <;> simp_all [statement, Word.operand]
        rw [hnone]

theorem length_scan_listText (h : ∀ e ∈ entries, Scans e.name) :
    entries.length ≤ (scan bol isServer (listText entries)).length := by
  induction entries generalizing bol isServer with
  | nil => exact Nat.zero_le _
  | cons e entries ih =>
    have hrest : entries.length ≤ (nextTokens entries).length := by
      unfold nextTokens
      split
      · next hnil => rw [hnil]; exact Nat.le_refl _
      · exact Nat.le_succ_of_le (ih fun e he => h e (mem_cons_of_mem _ he))
    rw [scan_listText (h e mem_cons_self), Entry.tokens]
    simp only [cons_append, length_cons, length_append]
    omega

/-! ## Adding the servers -/

variable {apply : Memcached → Statement → ReturnT × Memcached} {H : Hashkit.Hashes} {now : Nat} {memc : Memcached}

/-- A new client keeps its servers as they come. -/
def Plain (memc : Memcached) : Prop := memc.distribution = .modula ∧ memc.flags.useSortHosts = false

theorem serverAddWithWeight_plain (hplain : Plain memc) : ∃ memc',
    memc.serverAddWithWeight H now e.name (.ofNat (e.port.getD 11211)) (.ofNat (e.weight.getD 1)) =
      (.success, memc') ∧ Plain memc' ∧
      memc'.servers.map (fun s => (s.hostname, s.port.toNat, s.weight.toNat)) =
        memc.servers.map (fun s => (s.hostname, s.port.toNat, s.weight.toNat)) ++
          [(e.name, e.port.getD 11211, e.weight.getD 1)] := by
  have hport : 1 ≤ e.port.getD 11211 ∧ e.port.getD 11211 < 2 ^ 16 := by
    cases hp : e.port with
    | none => decide
    | some n => exact ⟨(e.port_range n hp).1, Nat.lt_succ_of_le (e.port_range n hp).2⟩
  have hweight : 1 ≤ e.weight.getD 1 ∧ e.weight.getD 1 < 2 ^ 32 := by
    cases hw : e.weight with
    | none => decide
    | some n => exact ⟨(e.weight_range n hw).1, Nat.lt_of_le_of_lt (e.weight_range n hw).2 (by decide)⟩
  obtain ⟨b, more, hname, hb⟩ := isHostname_cons e.isHostname
  have hslash : b ≠ 47 := by
    rintro rfl
    cases hb
  have hvalid : isValidServername e.name = true :=
    decide_eq_true (Nat.lt_of_le_of_lt e.isHostname.1 (by decide))
  have hport16 : (UInt16.ofNat (e.port.getD 11211)).toNat = e.port.getD 11211 := UInt16.toNat_ofNat_of_lt hport.2
  have hweight32 : (UInt32.ofNat (e.weight.getD 1)).toNat = e.weight.getD 1 := UInt32.toNat_ofNat_of_lt hweight.2
  have hport0 : UInt16.ofNat (e.port.getD 11211) ≠ 0 := fun h => by
    rw [h] at hport16
    exact absurd hport16 (by simp; omega)
  have hweight0 : UInt32.ofNat (e.weight.getD 1) ≠ 0 := fun h => by
    rw [h] at hweight32
    exact absurd hweight32 (by simp; omega)
  have hadd (server : Server) : memc.serverAdd H now server =
      (.success, { memc with servers := memc.servers ++ [Instance.ofServer server] }) := by
    simp [serverAdd, runDistribution, isConsistentDistribution, hplain.1, hplain.2]
  have hcreate : Server.create? e.name (.ofNat (e.port.getD 11211)) (.ofNat (e.weight.getD 1)) .tcp =
      some ⟨e.name, .ofNat (e.port.getD 11211), .ofNat (e.weight.getD 1), .tcp, hvalid, hweight0⟩ := by
    simp [Server.create?, hvalid, hweight0]
  have htype : (if e.name.head? = some '/'.toUInt8 then ConnectionType.unixSocket else .tcp) = .tcp := by
    rw [hname]
    exact if_neg fun h => hslash (Option.some.inj h)
  refine ⟨{ memc with servers := memc.servers ++ [Instance.ofServer ⟨e.name, .ofNat (e.port.getD 11211),
    .ofNat (e.weight.getD 1), .tcp, hvalid, hweight0⟩] }, ?_, hplain, ?_⟩
  · have hne : e.name ≠ [] := by simp [hname]
    simp only [serverAddWithWeight, if_neg hport0, if_neg hne, htype, hcreate]
    exact hadd _
  · simp [hport16, hweight32, Instance.ofServer]

theorem execute_servers (hplain : Plain memc) : ∃ memc',
    execute apply H now memc (entries.map Entry.statement) = (.success, memc') ∧
      memc'.servers.map (fun s => (s.hostname, s.port.toNat, s.weight.toNat)) =
        memc.servers.map (fun s => (s.hostname, s.port.toNat, s.weight.toNat)) ++
          entries.map fun e => (e.name, e.port.getD 11211, e.weight.getD 1) := by
  induction entries generalizing memc with
  | nil => exact ⟨memc, rfl, by simp⟩
  | cons e entries ih =>
    obtain ⟨memc₁, hadd, hplain₁, hservers₁⟩ := @serverAddWithWeight_plain e H now memc hplain
    obtain ⟨memc', hrun, hservers⟩ := ih hplain₁
    refine ⟨memc', ?_, ?_⟩
    · simp only [map_cons, execute, Entry.statement, hadd]
      exact hrun
    · simp [hservers, hservers₁]

/-! ## Texts that are cut -/

theorem statement_count {tokens rest : List Token} {s : Statement} (h : statement tokens = some (s, rest)) :
    rest.count (.char 32) ≤ tokens.count (.char 32) := by
  unfold statement at h
  have hport (ts : List Token) : (optionalPort ts).2.count (.char 32) ≤ ts.count (.char 32) := by
    unfold optionalPort
    split <;> simp
  have hweight (ts : List Token) : (optionalWeight ts).2.count (.char 32) ≤ ts.count (.char 32) := by
    unfold optionalWeight
    split <;> simp
  repeat' split at h
  all_goals cases h
  all_goals grind

/-- Every statement but the last has a blank behind it. -/
theorem length_parse_le {tokens : List Token} :
    (parse fuel tokens).1.length ≤ tokens.count (.char 32) + 1 := by
  induction fuel generalizing tokens with
  | zero => exact Nat.zero_le _
  | succ fuel ih =>
    rw [parse]
    split
    · exact Nat.zero_le _
    · exact Nat.zero_le _
    · exact Nat.zero_le _
    · exact Nat.succ_le_succ (Nat.zero_le _)
    · next hs =>
      have hcount := statement_count hs
      rw [count_cons_self] at hcount
      exact Nat.succ_le_succ (Nat.le_trans ih hcount)
    · exact Nat.succ_le_succ (Nat.zero_le _)

theorem char_of_token {yytext : Bytes} (h : kind.token isServer yytext = some (.char b)) :
    b = yytext.headD 0 := by
  cases kind with
  | char => exact (Token.char.inj (Option.some.inj h)).symm
  | hostname => simp only [Kind.token] at h; split at h <;> cases h
  | _ => cases h

theorem count_scan_le : (scan bol isServer text).count (.char 32) ≤ text.count 32 := by
  fun_induction scan bol isServer text with
  | case1 => exact Nat.zero_le _
  | case2 bol isServer text hne kind yyleng yytext hnone ih =>
    exact Nat.le_trans ih (List.Sublist.count_le _ (drop_sublist _ _))
  | case3 bol isServer text hne kind yyleng yytext token htoken ih =>
    have hsplit : text.count 32 = yytext.count 32 + (text.drop yyleng).count 32 := by
      rw [← count_append, take_append_drop]
    rw [hsplit, count_cons, Nat.add_comm]
    refine Nat.add_le_add ?_ ih
    split
    · next hblank =>
      rw [eq_of_beq hblank] at htoken
      have hhead := char_of_token htoken
      refine count_pos_iff.mpr ?_
      cases hy : yytext with
      | nil => rw [hy] at hhead; cases hhead
      | cons b _ => rw [hy] at hhead; exact hhead ▸ mem_cons_self
    · exact Nat.zero_le _

theorem length_execute_le {statements : List Statement} :
    (execute (fun memc _ => (.success, memc)) H now memc statements).2.servers.length ≤
      memc.servers.length + statements.length := by
  induction statements generalizing memc with
  | nil => exact Nat.le_refl _
  | cons s statements ih =>
    have hadd (name : Bytes) (port : UInt16) (weight : UInt32) :
        (memc.serverAddWithWeight H now name port weight).2.servers.length ≤ memc.servers.length + 1 := by
      simp only [serverAddWithWeight]
      split
      · obtain ⟨messages, herror⟩ := setError_eq memc .invalidArguments "Invalid hostname provided"
        rw [herror]
        exact Nat.le_succ _
      · rw [serverAdd_eq, runDistribution_servers, length_arranged]
        simp [withServers]
    have hstep (rc : ReturnT) (memc' : Memcached) (h : memc'.servers.length ≤ memc.servers.length + 1) :
        (if rc.isFailed then (.parseError, memc') else
          execute (fun memc _ => (.success, memc)) H now memc' statements).2.servers.length ≤
            memc.servers.length + (statements.length + 1) := by
      split
      · exact Nat.le_trans h (by omega)
      · exact Nat.le_trans ih (by omega)
    cases s with
    | server name port weight => exact hstep _ _ (hadd name (.ofNat port) (.ofNat weight))
    | _ => exact hstep _ _ (Nat.le_succ _)

theorem blank_not_mem_text : 32 ∉ e.text := by
  have hname : 32 ∉ e.name := fun h => absurd (e.isHostname.2.1 32 h) (by decide)
  have hdecimal (n : Nat) : 32 ∉ decimal n := not_mem_decimal rfl
  have hserver : 32 ∉ ascii "--SERVER=" := by decide
  unfold Entry.text Entry.portText Entry.weightText
  cases e.port <;> cases e.weight <;> simp [hname, hdecimal, hserver]

theorem length_text_le : e.text.length ≤ 1022 := by
  have hname := e.isHostname.1
  have hdecimal {n : Nat} (h : n < 10 ^ 5) : (decimal n).length ≤ 5 := (length_decimal_le_iff (by decide)).mpr h
  have hport : e.portText.length ≤ 6 := by
    unfold Entry.portText
    cases hp : e.port with
    | none => exact Nat.zero_le _
    | some n => exact Nat.succ_le_succ (hdecimal (Nat.lt_of_le_of_lt (e.port_range n hp).2 (by decide)))
  have hweight : e.weightText.length ≤ 7 := by
    unfold Entry.weightText
    cases hw : e.weight with
    | none => exact Nat.zero_le _
    | some n => exact Nat.succ_le_succ (Nat.succ_le_succ (hdecimal (Nat.lt_of_le_of_lt (e.weight_range n hw).2 (by decide))))
  have hserver : (ascii "--SERVER=").length = 9 := rfl
  simp only [Entry.text, length_append, hserver]
  omega

theorem count_listText : (listText (e :: entries)).count 32 = entries.length := by
  induction entries generalizing e with
  | nil => simp [listText_cons, next, count_eq_zero.mpr blank_not_mem_text]
  | cons e' entries ih =>
    rw [listText_cons, count_append, count_eq_zero.mpr blank_not_mem_text, next, if_neg (by simp),
      count_cons_self, ih, Nat.zero_add, length_cons]

/-- The end of the text without a blank is a part of the last server. -/
theorem length_suffix_le {suffix : Bytes} (h : suffix <:+ listText entries) (hblank : 32 ∉ suffix) :
    suffix.length ≤ 1022 := by
  induction entries with
  | nil => exact Nat.le_trans h.length_le (Nat.zero_le _)
  | cons e entries ih =>
    rw [listText_cons, next] at h
    split at h
    · rw [append_nil] at h
      exact Nat.le_trans h.length_le length_text_le
    · rcases suffix_or_suffix_of_suffix h (suffix_append _ _) with hs | hs
      · rcases suffix_cons_iff.mp hs with rfl | hs
        · exact absurd mem_cons_self hblank
        · exact ih hs
      · exact absurd (hs.subset mem_cons_self) hblank

/-- A string of `2 ^ 32` bytes loses its last server. -/
theorem length_lt_of_namesServers (h : NamesServers (e :: entries)) : (listText (e :: entries)).length < 2 ^ 32 := by
  obtain ⟨memc, hrun, hservers⟩ := h (fun memc _ => (.success, memc)) fnvHashes 0
  by_contra hlong
  generalize htext : listText (e :: entries) = text at *
  -- the part that is cut off holds a blank
  have hcut : 32 ∈ text.drop (text.length % 2 ^ 32) := by
    by_contra hblank
    have hsuffix : text.drop (text.length % 2 ^ 32) <:+ listText (e :: entries) := htext ▸ drop_suffix _ _
    have hle := length_suffix_le hsuffix hblank
    rw [length_drop] at hle
    omega
  have hblanks : (text.take (text.length % 2 ^ 32)).count 32 < entries.length := by
    have hall : text.count 32 = entries.length := htext ▸ count_listText
    rw [← take_append_drop (text.length % 2 ^ 32) text, count_append] at hall
    have hpos := count_pos_iff.mpr hcut
    omega
  have hcount := congrArg List.length hservers
  rw [length_map, length_map, length_cons] at hcount
  have hexecuted := congrArg (fun r => r.2.servers.length) hrun
  simp only [memcachedParseConfiguration] at hexecuted
  refine absurd (hexecuted.trans hcount) (Nat.ne_of_lt (Nat.lt_of_le_of_lt length_execute_le ?_))
  rw [show create.servers.length = 0 from rfl, Nat.zero_add]
  exact Nat.lt_of_le_of_lt length_parse_le (Nat.succ_lt_succ (Nat.lt_of_le_of_lt count_scan_le hblanks))

/-- A string with a name that is not scanned as one is refused. -/
theorem scans_of_namesServers (hlong : (listText entries).length < 2 ^ 32) (h : NamesServers entries) :
    ∀ e ∈ entries, Scans e.name := by
  by_contra hno
  push Not at hno
  obtain ⟨memc, hrun, -⟩ := h (fun memc _ => (.success, memc)) fnvHashes 0
  rw [memcachedParseConfiguration, Nat.mod_eq_of_lt hlong, take_length] at hrun
  simp [parse_fails hno] at hrun

/-- A configuration string names the servers it says, if it is shorter than `2 ^ 32` bytes and no name is a keyword
or has less than three characters. -/
theorem namesServers_iff (hne : entries ≠ []) :
    NamesServers entries ↔ (∀ e ∈ entries, Scans e.name) ∧ (listText entries).length < 2 ^ 32 := by
  constructor
  · intro h
    have hlong : (listText entries).length < 2 ^ 32 := by
      obtain ⟨e, entries, rfl⟩ := exists_cons_of_ne_nil hne
      exact length_lt_of_namesServers h
    exact ⟨scans_of_namesServers hlong h, hlong⟩
  · rintro ⟨hnames, hlong⟩ apply H now
    obtain ⟨memc, hrun, hservers⟩ := @execute_servers entries apply H now .create ⟨rfl, rfl⟩
    refine ⟨memc, ?_, hservers⟩
    rw [memcachedParseConfiguration, Nat.mod_eq_of_lt hlong, take_length]
    simp only [parse_servers hne hnames (Nat.le_succ_of_le (length_scan_listText hnames)), hrun]
    rfl

/-- `--SERVER=cache-1.local:11212/?3`. -/
def cacheServer : Entry where
  name := ascii "cache-1.local"
  port := some 11212
  weight := some 3
  isHostname := ⟨by decide, by decide +kernel, by decide, by decide, by decide +kernel⟩
  port_range := by simp
  weight_range := by simp

/-- `--SERVER=db`. -/
def shortServer : Entry where
  name := ascii "db"
  port := none
  weight := none
  isHostname := ⟨by decide, by decide +kernel, by decide, by decide, by decide +kernel⟩
  port_range := by simp
  weight_range := by simp

theorem namesServers_iff_cacheServer : [cacheServer, cacheServer] ≠ [] ∧ NamesServers [cacheServer, cacheServer] := by
  refine ⟨by simp, (namesServers_iff (by simp)).mpr ⟨?_, by decide⟩⟩
  have hscans : Scans cacheServer.name := ⟨by decide, by decide +kernel⟩
  simpa using hscans

/-- A name of two letters is refused. -/
theorem not_namesServers_shortServer : ¬NamesServers [shortServer] := by
  intro h
  exact absurd (scans_of_namesServers (by decide) h shortServer mem_cons_self).1 (by decide)

end LM.Csl
