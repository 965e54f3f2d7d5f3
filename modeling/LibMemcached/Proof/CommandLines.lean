import LibMemcached.Proof.Multiget
import LibMemcached.Proof.TextStorage

/-!
# The command lines of the calls that send keys

In the text protocol a key is a word of the command line, behind the namespace. A call writes one line, or
a line to each server it asks for keys (`KeyCall.lines`), and the line is meant to have certain words. It
has exactly those if the namespace and the key together are a token (`KeyCall.wellFormed_iff`), which is
more than `memcached_key_test` asks for (`KeyCall.Sends.fits_iff`).
-/

namespace LM

open List

variable {memc : Memcached} {word : Bytes} {call : KeyCall}

/-! ## Tokens and lines -/

/-- What a server takes for a key: 1 to 250 graphic characters. -/
structure IsToken (token : Bytes) : Prop where
  ne_nil : token ≠ []
  length : token.length < maxKey
  graphic : token.all Memcached.isGraph = true

/-- The tokens of the first line of a text. -/
def lineTokens (text : Bytes) : List Bytes := (text.takeWhile (· != 13)).splitOn 32

theorem IsToken.isWord {token : Bytes} (h : IsToken token) : IsWord token :=
  isWord_of_graphic h.ne_nil (all_eq_true.mp h.graphic)

theorem IsWord.not_blank (h : IsWord word) : (32 : UInt8) ∉ word := fun hmem =>
  absurd (h.not_space 32 hmem) (by decide)

theorem IsWord.not_cr (h : IsWord word) : ∀ b ∈ word, (b != 13) = true := by
  intro b hb
  refine bne_iff_ne.mpr ?_
  rintro rfl
  exact absurd (h.not_space 13 hb) (by decide)

theorem isWord_literal (h : (word != [] && word.all fun b => !isSpace b && b != 0) = true) : IsWord word := by
  simp only [Bool.and_eq_true, bne_iff_ne, all_eq_true, Bool.not_eq_true'] at h
  exact ⟨h.1, fun b hb => (h.2 b hb).1, fun b hb => (h.2 b hb).2⟩

theorem lineTokens_textLine {words : List Bytes} (hne : words ≠ [])
    (hwords : ∀ word ∈ words, IsWord word) {rest : Bytes} : lineTokens (textLine words ++ rest) = words := by
  unfold lineTokens
  induction words with
  | nil => exact absurd rfl hne
  | cons word words ih =>
    obtain ⟨hword, hrest⟩ := forall_mem_cons.mp hwords
    cases words with
    | nil =>
      rw [textLine, append_assoc, takeWhile_append_of_pos hword.not_cr]
      simp [splitOn_eq_singleton hword.not_blank]
    | cons word' words =>
      have hstep : (textLine (word :: word' :: words) ++ rest).takeWhile (· != 13) =
          word ++ 32 :: (textLine (word' :: words) ++ rest).takeWhile (· != 13) := by
        rw [textLine, append_assoc, takeWhile_append_of_pos hword.not_cr]
        · simp
        · simp
      have hih := ih (cons_ne_nil _ _) hrest
      have hfirst := splitOn_eq_singleton hword.not_blank
      unfold List.splitOn at hih hfirst ⊢
      rw [hstep, splitOnP_append_cons _ _ (by simp), hih, hfirst]
      rfl

/-- The command of a call and the words its line is meant to have. -/
structure Line where
  text : Bytes
  words : List Bytes

/-- `"noreply"`, if no reply is wanted. -/
def noreplyWords (reply : Bool) : List Bytes := if reply then [] else [ascii "noreply"]

/-- The item as it is sent. -/
def Memcached.sealed (memc : Memcached) (item : Item) : Item :=
  { item with value := (memc.encrypted item.value).getD [] }

namespace ItemCall

def key : ItemCall → Bytes
  | store _ _ item => item.key
  | delete _ key _ => key
  | arith _ _ key _ _ => key
  | touch _ key _ => key
  | exist _ key => key

/-- The pieces that the call hands to `memcached_vdo`. -/
def vector (memc : Memcached) : ItemCall → List Bytes
  | store verb _ item => asciiStorage memc.keyNamespace (memc.sealed item) memc.flags.reply verb
  | delete _ key _ =>
    [[], ascii "delete ", memc.keyNamespace, key, noreply memc.flags.reply, ascii "\r\n"]
  | arith isIncr _ key offset _ =>
    [[], ascii (if isIncr then "incr " else "decr "), memc.keyNamespace, key, spaced offset.toNat,
      noreply memc.flags.reply, ascii "\r\n"]
  | touch _ key expiration =>
    [[], ascii "touch ", memc.keyNamespace, key, spaced expiration, ascii "\r\n"]
  | exist _ key =>
    [[], ascii "add ", memc.keyNamespace, key, ascii " 0", ascii " 2678400", ascii " 0", ascii "\r\n",
      ascii "\r\n"]

def words (memc : Memcached) : ItemCall → List Bytes
  | store verb _ item => storageWords memc.keyNamespace (memc.sealed item) memc.flags.reply verb
  | delete _ key _ => [ascii "delete", memc.keyNamespace ++ key] ++ noreplyWords memc.flags.reply
  | arith isIncr _ key offset _ =>
    [ascii (if isIncr then "incr" else "decr"), memc.keyNamespace ++ key, decimal offset.toNat] ++
      noreplyWords memc.flags.reply
  | touch _ key expiration => [ascii "touch", memc.keyNamespace ++ key, intText expiration]
  | exist _ key =>
    [ascii "add", memc.keyNamespace ++ key, ascii "0", ascii "2678400", ascii "0"]

/-- What follows the line. -/
def data (memc : Memcached) : ItemCall → Bytes
  | store _ _ item => 10 :: ((memc.sealed item).value ++ [13, 10])
  | exist _ _ => [10, 13, 10]
  | _ => [10]

theorem vector_flatten (memc : Memcached) (call : ItemCall) :
    (call.vector memc).flatten = textLine (call.words memc) ++ call.data memc := by
  have hcrlf : ascii "\r\n" = [13, 10] := by decide
  have hnoreply : ascii " noreply" = 32 :: ascii "noreply" := by decide
  cases call with
  | store verb groupKey item => exact asciiStorage_flatten _ _ _ _
  | delete groupKey key expiration =>
    have hop : ascii "delete " = ascii "delete" ++ [32] := by decide
    cases hr : memc.flags.reply <;>
      simp [vector, words, data, noreplyWords, noreply, textLine, hop, hcrlf, hnoreply, hr]
  | arith isIncr groupKey key offset initial =>
    have hop : ascii (if isIncr then "incr " else "decr ") =
        ascii (if isIncr then "incr" else "decr") ++ [32] := by cases isIncr <;> decide
    cases hr : memc.flags.reply <;>
      simp [vector, words, data, noreplyWords, noreply, textLine, hop, hcrlf, hnoreply, hr, spaced_natCast]
  | touch groupKey key expiration =>
    have hop : ascii "touch " = ascii "touch" ++ [32] := by decide
    simp [vector, words, data, textLine, hop, hcrlf, spaced_eq]
  | exist groupKey key =>
    have hop : ascii "add " = ascii "add" ++ [32] := by decide
    have hzero : ascii " 0" = 32 :: ascii "0" := by decide
    have hmonth : ascii " 2678400" = 32 :: ascii "2678400" := by decide
    simp [vector, words, data, textLine, hop, hcrlf, hzero, hmonth]

theorem isWord_words {call : ItemCall} (h : IsToken (memc.keyNamespace ++ call.key)) :
    ∀ word ∈ call.words memc, IsWord word := by
  have hkey := h.isWord
  have hnoreply : ∀ word ∈ noreplyWords memc.flags.reply, IsWord word := by
    unfold noreplyWords
    split
    · simp
    · simpa using isWord_literal (by decide +kernel)
  cases call with
  | store verb groupKey item =>
    exact isWord_storageWords _ _ h.ne_nil (all_eq_true.mp h.graphic)
  | delete groupKey key expiration =>
    simp only [words, forall_mem_append, forall_mem_cons]
    exact ⟨⟨isWord_literal (by decide +kernel), hkey, by simp⟩, hnoreply⟩
  | arith isIncr groupKey key offset initial =>
    simp only [words, forall_mem_append, forall_mem_cons]
    refine ⟨⟨?_, hkey, isWord_decimal _, by simp⟩, hnoreply⟩
    cases isIncr
    · exact isWord_literal (by decide +kernel)
    · exact isWord_literal (by decide +kernel)
  | touch groupKey key expiration =>
    simp only [words, forall_mem_cons]
    exact ⟨isWord_literal (by decide +kernel), hkey, isWord_intText, by simp⟩
  | exist groupKey key =>
    have hzero : IsWord (ascii "0") := isWord_literal (by decide +kernel)
    simp only [words, forall_mem_cons]
    exact ⟨isWord_literal (by decide +kernel), hkey, hzero,
      isWord_literal (by decide +kernel), hzero, by simp⟩

variable (memc : Memcached) (call : ItemCall)

theorem vector_ne_nil : (call.vector memc).flatten ≠ [] := by
  rw [vector_flatten]
  refine append_ne_nil_of_right_ne_nil _ ?_
  cases call <;> exact cons_ne_nil _ _

theorem words_ne_nil : call.words memc ≠ [] := by
  cases call <;> simp [words, storageWords]

end ItemCall

/-! ## The calls -/

/-- The words of a `get`. -/
def Memcached.getWords (memc : Memcached) (keys : List Bytes) : List Bytes :=
  ascii (if memc.flags.supportCas then "gets" else "get") :: keys.map (memc.keyNamespace ++ ·)

theorem Memcached.getText_eq (memc : Memcached) (keys : List Bytes) :
    memc.getText keys ++ [13, 10] = textLine (memc.getWords keys) ++ [10] := by
  unfold getText getWords
  generalize ascii (if memc.flags.supportCas then "gets" else "get") = word
  induction keys generalizing word with
  | nil => simp [textLine]
  | cons key keys ih =>
    have hblank : ascii " " = [32] := by decide
    have hrest := ih (memc.keyNamespace ++ key)
    rw [map_cons, textLine, flatMap_cons, hblank]
    · simp only [hblank, append_assoc, cons_append, nil_append] at hrest ⊢
      rw [hrest]
    · simp

namespace KeyCall

def keys : KeyCall → List Bytes
  | item call => [call.key]
  | get _ key => [key]
  | mget _ keys => keys

/-- The command lines that the call may write. A `get` asks one server for some of the keys. -/
def lines (memc : Memcached) : KeyCall → List Line
  | item call => [⟨(call.vector memc).flatten, call.words memc⟩]
  | call => call.keys.sublists.map fun keys => ⟨memc.getText keys ++ [13, 10], memc.getWords keys⟩

/-- Every key token is one, and every command line has the words it is meant to have. -/
def WellFormed (memc : Memcached) (call : KeyCall) : Prop :=
  (∀ key ∈ call.keys, IsToken (memc.keyNamespace ++ key)) ∧
    ∀ line ∈ call.lines memc, lineTokens line.text = line.words

theorem wellFormed_iff (memc : Memcached) (call : KeyCall) :
    call.WellFormed memc ↔ ∀ key ∈ call.keys, IsToken (memc.keyNamespace ++ key) := by
  refine ⟨And.left, fun h => ⟨h, fun line hline => ?_⟩⟩
  have hget (keys : List Bytes) (hkeys : ∀ key ∈ keys, IsToken (memc.keyNamespace ++ key)) :
      lineTokens (memc.getText keys ++ [13, 10]) = memc.getWords keys := by
    rw [memc.getText_eq]
    refine lineTokens_textLine (cons_ne_nil _ _) (forall_mem_cons.mpr ⟨?_, ?_⟩)
    · split <;> exact isWord_literal (by decide +kernel)
    · exact forall_mem_map.mpr fun key hkey => (hkeys key hkey).isWord
  cases call with
  | item call =>
    obtain rfl := mem_singleton.mp hline
    have hkey := h call.key mem_cons_self
    dsimp only
    rw [call.vector_flatten]
    exact lineTokens_textLine (call.words_ne_nil memc) (call.isWord_words hkey)
  | get groupKey key =>
    obtain ⟨part, hpart, rfl⟩ := mem_map.mp hline
    exact hget part fun key' hkey' => h key' ((mem_sublists.mp hpart).subset hkey')
  | mget groupKey keys =>
    obtain ⟨part, hpart, rfl⟩ := mem_map.mp hline
    exact hget part fun key' hkey' => h key' ((mem_sublists.mp hpart).subset hkey')

end KeyCall

/-- `memcached_set_namespace` accepts the namespace of the client. -/
def Memcached.NamespaceAccepted (memc : Memcached) : Prop :=
  ∀ ns, memc.namespace_ = some ns → (memc.setNamespace (some ns)).1 = .success

theorem Memcached.keyTest_eq_setError {key : Bytes} (h : ¬memc.Passes key) :
    ∃ message, memc.keyTest key = memc.setError .badKeyProvided message := by
  have hrc := keyTest_fails h
  unfold keyTest at hrc ⊢
  split at hrc
  · exact ⟨_, if_pos ‹_›⟩
  split at hrc
  · exact ⟨_, by rw [if_neg ‹_›, if_pos ‹_›]⟩
  · cases hrc

theorem Memcached.setNamespace_passes {ns : Bytes} (htext : memc.flags.binaryProtocol = false)
    (h : (memc.setNamespace (some ns)).1 = .success) : ns.all isGraph = true := by
  cases ns with
  | nil => rfl
  | cons b ns =>
    by_cases hpass : Memcached.Passes { memc with flags.verifyKey := true } (b :: ns)
    · exact hpass.2.2 rfl htext
    · obtain ⟨message, hfails⟩ := keyTest_eq_setError hpass
      simp only [setNamespace, hfails] at h
      cases h

theorem Memcached.NamespaceAccepted.graphic (h : memc.NamespaceAccepted)
    (htext : memc.flags.binaryProtocol = false) : memc.keyNamespace.all isGraph = true := by
  unfold keyNamespace
  cases hns : memc.namespace_ with
  | none => rfl
  | some ns => exact setNamespace_passes htext (h ns hns)

namespace KeyCall

/-- The call gets as far as writing its command: its arguments pass the tests, the value of a storage
command can be encrypted if it has to be, its numbers fit into their buffers, and no initial value is
given. -/
def Sends (memc : Memcached) (call : KeyCall) : Prop :=
  call.Tested memc ∧
    match call with
    | item (.store verb _ stored) => (memc.hashkit.key.isSome && !verb.canBeEncrypted) = false ∧
        (memc.encrypted stored.value).isSome = true ∧ storageFits (memc.sealed stored) = true
    | item (.arith _ _ _ _ initial) => initial = none
    | _ => True

/-- The namespace leaves room for the keys. The key of an `exist` is a token as it is sent, since
nothing tests it. -/
def Fits (memc : Memcached) (call : KeyCall) : Prop :=
  match call with
  | item (.exist _ key) => IsToken (memc.keyNamespace ++ key)
  | call => ∀ key ∈ call.keys, memc.keyNamespace.length + key.length < maxKey

theorem Sends.passes (h : call.Sends memc) :
    (∃ groupKey key, call = item (.exist groupKey key)) ∨ ∀ key ∈ call.keys, memc.Passes key := by
  cases call with
  | item call =>
    cases call with
    | store verb groupKey item => exact .inr (forall_mem_singleton.mpr h.1.2)
    | delete groupKey key expiration => exact .inr (forall_mem_singleton.mpr h.1.2.1)
    | arith isIncr groupKey key offset initial => exact .inr (forall_mem_singleton.mpr h.1.2.2)
    | touch groupKey key expiration => exact .inr (forall_mem_singleton.mpr h.1.2)
    | exist groupKey key => exact .inl ⟨groupKey, key, rfl⟩
  | get groupKey key => exact .inr h.1.2.2.2
  | mget groupKey keys => exact .inr h.1.2.2.2

theorem fits_iff_of_passes (htext : memc.flags.binaryProtocol = false)
    (hverify : memc.flags.verifyKey = true) (hns : memc.keyNamespace.all Memcached.isGraph = true)
    (hpass : ∀ key ∈ call.keys, memc.Passes key) :
    (∀ key ∈ call.keys, memc.keyNamespace.length + key.length < maxKey) ↔
      ∀ key ∈ call.keys, IsToken (memc.keyNamespace ++ key) := by
  refine forall₂_congr fun key hkey => ⟨fun hlength => ?_, fun h => ?_⟩
  · obtain ⟨hne, -, hgraph⟩ := hpass key hkey
    refine ⟨append_ne_nil_of_right_ne_nil _ fun h => hne (by rw [h]; rfl), ?_, ?_⟩
    · rwa [length_append]
    · rw [all_append, hns, hgraph hverify htext]
      rfl
  · simpa using h.length

theorem fits_exist (memc : Memcached) (groupKey key : Bytes) : (item (.exist groupKey key)).Fits memc ↔
      ∀ key' ∈ (item (.exist groupKey key)).keys, IsToken (memc.keyNamespace ++ key') :=
  (forall_mem_singleton (p := fun key' => IsToken (memc.keyNamespace ++ key'))).symm

/-- A call that sends is well formed exactly if its keys fit. -/
theorem Sends.fits_iff (h : call.Sends memc) (htext : memc.flags.binaryProtocol = false)
    (hverify : memc.flags.verifyKey = true) (hns : memc.keyNamespace.all Memcached.isGraph = true) :
    call.Fits memc ↔ call.WellFormed memc := by
  rw [wellFormed_iff]
  obtain ⟨groupKey, key, rfl⟩ | hpass := h.passes
  · exact fits_exist memc groupKey key
  · have hfits := fits_iff_of_passes htext hverify hns hpass
    cases call with
    | item call =>
      cases call with
      | exist groupKey key => exact fits_exist memc groupKey key
      | _ => exact hfits
    | get groupKey key => exact hfits
    | mget groupKey keys => exact hfits

end KeyCall

end LM
