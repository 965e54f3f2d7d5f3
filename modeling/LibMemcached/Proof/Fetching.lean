import LibMemcached.Framework.Places
import LibMemcached.Impl.Get
import LibMemcached.Proof.Values
import LibMemcached.Proof.Writing

/-!
# Fetching what the servers return

After a `memcached_mget` each server that was asked has the items it returns, and the end of them, on
the way to the client (`Conn.Holds`), and its response counter is one; the others have nothing
(`Conn.Rested`). `memcached_fetch_result` takes an item from whichever of them is ready, or finds that
none has any left (`fetchLoop_fetching`). So a caller that fetches until there is no more gets all
items, in some order (`fetchAll_fetching`).
-/

namespace LM

open List Memcached

variable {κ : Type} {K : Kernel κ} {pending : κ → List InByte} {A : Request → List InByte → Prop}
  {P : Memcached → Prop} {s : St κ} {k : Nat} {hit : Hit} {conn : Conn κ} {poller : Poller κ}
  {length fuel : Nat} {rest part : Bytes} {hits : List Hit} {α : Type} {l : Option (List Hit)}

/-! ## What is on the way -/

/-- The command that `memcached_mget` sends in the text protocol. -/
def Memcached.getCmd (memc : Memcached) : AsciiCmd := if memc.flags.supportCas then .gets else .get

/-- What a server sends for one hit. -/
def HitBytes (memc : Memcached) (hit : Hit) (part : Bytes) : Prop :=
  if memc.flags.binaryProtocol then
    hit.body.length + hit.key.length + 4 < 2 ^ 32 ∧ ∃ r : RequestHeader,
      r.opcode = Opcode.getkq.toByte ∧ r.opaque_.length = 4 ∧ part = (getResponseHandler r hit).bytes
  else (∀ b ∈ hit.key, isGraph b = true) ∧ part = valueBlock memc.getCmd hit

/-- What it sends behind the last one. -/
def EndBytes (memc : Memcached) (part : Bytes) : Prop :=
  if memc.flags.binaryProtocol then
    ∃ p : Packet, p.Fits ∧ p.status = .success ∧ p.opcode = Opcode.noop.toByte ∧ p.body = [] ∧
      part = p.bytes
  else part = ascii "END\r\n"

/-- The name of an item begins with the namespace, is longer than it, and fits into a line; in the text
protocol its value can be decrypted. -/
structure Hit.Named (memc : Memcached) (hit : Hit) : Prop where
  longer : memc.keyNamespace.length < hit.key.length
  short : memc.flags.binaryProtocol = false → hit.key.length ≤ maxLineKey
  plain : memc.flags.binaryProtocol = false → (memc.decrypted hit.body).isSome = true

/-- The value of a hit as the client has it: only the text protocol decrypts. -/
def Memcached.plainOf (memc : Memcached) (hit : Hit) : Bytes :=
  if memc.flags.binaryProtocol then hit.body else (memc.decrypted hit.body).getD []

/-- The item of a hit as the client has it. The text `get` has no cas value. -/
def Memcached.itemOf (memc : Memcached) (hit : Hit) : Result :=
  { hit.item memc.keyNamespace.length
      (if memc.flags.binaryProtocol then hit.cas.toNat else (casOf memc.getCmd hit).getD 0) with
    value := memc.plainOf hit }

/-- The hits are on the way, and the end of them. -/
structure Conn.Holds (pending : κ → List InByte) (memc : Memcached) (c : Conn κ) (hits : List Hit) :
    Prop where
  valid : c.valid = true
  cursorActive : c.cursorActive = 1
  writeBuffer : c.writeBuffer = []
  copied : openBytes c.copied = []
  named : ∀ hit ∈ hits, hit.Named memc
  stream : ∃ parts last, List.Forall₂ (HitBytes memc) hits parts ∧ EndBytes memc last ∧
    bytesOf (c.unread pending) = parts.flatten ++ last

/-- Nothing is outstanding, and no command was begun. -/
structure Conn.Rested (pending : κ → List InByte) (c : Conn κ) : Prop where
  cursorActive : c.cursorActive = 0
  writeBuffer : c.writeBuffer = []
  unread : c.unread pending = []
  copied : openBytes c.copied = []

/-! ## One response -/

/-- A flush of an empty write buffer changes nothing that matters. -/
structure Untouched (pending : κ → List InByte) (s s' : St κ) : Prop where
  shared : s'.toShared = s.toShared
  valid : s'.valid = s.valid
  cursorActive : s'.cursorActive = s.cursorActive
  writeBuffer : s'.writeBuffer = s.writeBuffer
  copied : s'.copied = s.copied
  unread : s'.unread pending = s.unread pending

theorem Wrote.untouched {t : St κ} (h : Wrote pending A s [] t) (hv : s.valid = true)
    (hw : s.writeBuffer = []) : Untouched pending s t := by
  obtain ⟨sent, answers, hsent, hA, hp⟩ := h.sent
  rw [hw, append_nil] at hsent
  obtain ⟨rfl, ht⟩ := append_eq_nil_iff.mp hsent.symm
  cases hA
  refine ⟨h.shared, h.valid.trans hv.symm, h.cursorActive, ht.trans hw.symm, by simp [h.copied], ?_⟩
  rw [Conn.unread, Conn.unread, h.readBuffer, hp, flatten_nil, append_nil]

/-- `memcached_response` on a connection with one answer outstanding reads one response. -/
theorem memcachedResponse_one (hS : Accepts K pending A) (hv : s.valid = true) (hp : s.isPurging = false)
    (hc : s.cursorActive = 1) (hw : s.writeBuffer = []) {Q : ReturnT → St κ → Prop}
    (h : ∀ (t : St κ) (buffer : Bytes), Untouched pending s t → Ensures (readOneResponse K length buffer s.result) t fun reply s' => Q reply.rc { s' with result := reply.result, answer := some s'.lastReply }) :
    Ensures (memcachedResponse K length) s Q := by
  have hlone : Lone s := ⟨hv, hp, Nat.le_of_eq hc, by rw [hw]; exact Nat.zero_le _⟩
  have hflush : Ensures (if s.memc.flags.noBlock then memcachedIoWrite K [] true else pure true) s
      fun _ t => Untouched pending s t := by
    refine ensures_ite (fun _ => ?_) fun _ => ensures_pure.mpr ⟨rfl, rfl, rfl, rfl, rfl, rfl⟩
    exact (memcachedIoWrite_writing hS [] true hlone).mono fun _ t ht => ht.2.1.untouched hv hw
  simp only [memcachedResponse, ensures_bind, ensures_get]
  refine hflush.mono fun _ t ht => ?_
  have hct : ¬1 < t.cursorActive := by
    rw [ht.cursorActive, hc]
    decide
  have hresult : t.result = s.result := congrArg Shared.result ht.shared
  simp only [hct, decide_false, Bool.and_false, Bool.false_eq_true, if_false, ensures_pure,
    ReturnT.isFatal, hresult]
  refine (h t _ ht).mono fun reply u hu => ?_
  simp only [ensures_modify]
  exact hu

section

variable (hf : Fills K pending P) (hv : s.valid = true) (hP : P s.memc) (hc : s.cursorActive = 1) (buffer : Bytes) (result : Result)
include hf hv hP hc

theorem readOneResponse_hitBytes (hnamed : hit.Named s.memc) (hpart : HitBytes s.memc hit part)
    (hu : bytesOf (s.unread pending) = part ++ rest) :
    Ensures (readOneResponse K defaultCommandSize buffer result) s fun reply s' =>
      reply.rc = .success ∧ reply.result = s.memc.itemOf hit ∧ Took pending s part.length 1 s' := by
  rw [HitBytes] at hpart
  split at hpart
  · rename_i hb
    obtain ⟨hlen, r, hopcode, hopaque, rfl⟩ := hpart
    refine (readOneResponse_hit hf hv hP hb _ buffer result (.inr hopcode) hopaque hlen
      hnamed.longer hu).mono fun reply t ht => ?_
    rw [if_pos hopcode, hc] at ht
    exact ⟨ht.1, by rw [ht.2.1, itemOf, plainOf, if_pos hb, if_pos hb]; rfl, ht.2.2⟩
  · rename_i hb
    obtain ⟨hgraph, rfl⟩ := hpart
    have hb' : s.memc.flags.binaryProtocol = false := by simpa using hb
    obtain ⟨plain, hplain⟩ := Option.isSome_iff_exists.mp (hnamed.plain hb')
    refine (readOneResponse_valueBlock hf hv hP hb' (Nat.le_refl _) buffer result hgraph
      (hnamed.short hb') hplain hu).mono fun reply t ht => ?_
    rw [hc] at ht
    refine ⟨ht.1, ?_, ht.2.2⟩
    rw [ht.2.1, itemOf, plainOf, if_neg hb, if_neg hb, hplain]
    rfl

theorem readOneResponse_endBytes (hpart : EndBytes s.memc part)
    (hu : bytesOf (s.unread pending) = part ++ rest) :
    Ensures (readOneResponse K defaultCommandSize buffer result) s fun reply s' =>
      reply.rc = .end_ ∧ Took pending s part.length 0 s' := by
  rw [EndBytes] at hpart
  split at hpart
  · rename_i hb
    obtain ⟨p, hfits, hstatus, hopcode, hbody, rfl⟩ := hpart
    have hread := readOneResponse_noop hf hv hP hb defaultCommandSize buffer result hfits hstatus
      hopcode hbody hu
    rwa [hc] at hread
  · rename_i hb
    subst hpart
    have hread := readOneResponse_end hf hv hP (by simpa using hb) (Nat.le_refl _) buffer result hu
    have hlen : (ascii "END\r\n").length = 5 := by decide
    rwa [hc, ← hlen] at hread

end

/-- What a server still has for the client: nothing, or some items and the end of them. -/
def Conn.Left (pending : κ → List InByte) (memc : Memcached) (c : Conn κ) : Option (List Hit) → Prop
  | none => c.Rested pending
  | some hits => c.Holds pending memc hits

/-- What a response is with these hits on the way: the first of them, or the end. -/
def ReadsNext (memc : Memcached) : List Hit → ReturnT → Result → Prop
  | [], rc, _ => rc = .end_
  | hit :: _, rc, result => rc = .success ∧ result = memc.itemOf hit

theorem memcachedResponse_holds (hS : Accepts K pending A) (hf : Fills K pending P) (hP : P s.memc)
    (hp : s.isPurging = false) (hs : s.toConn.Holds pending s.memc hits) :
    Ensures (memcachedResponse K defaultCommandSize) s fun rc s' =>
      ReadsNext s.memc hits rc s'.result ∧ s'.toConn.Left pending s.memc hits.tail? ∧
        s'.memc = s.memc ∧ s'.isPurging = false := by
  refine memcachedResponse_one hS hs.valid hp hs.cursorActive hs.writeBuffer fun t buffer ht => ?_
  have hmemc : t.memc = s.memc := congrArg Shared.memc ht.shared
  have hv := ht.valid.trans hs.valid
  have hw := ht.writeBuffer.trans hs.writeBuffer
  have hpurging : t.isPurging = false := (congrArg Shared.isPurging ht.shared).trans hp
  have hopen {n count : Nat} {u : St κ} (hu : Took pending t n count u) : openBytes u.copied = [] := by
    rw [show u.copied = t.copied from congrArg (·.copied) hu.view, ht.copied]
    exact hs.copied
  obtain ⟨parts, last, hparts, hlast, hu⟩ := hs.stream
  cases hparts with
  | nil =>
    rw [flatten_nil, nil_append, ← ht.unread, ← append_nil last] at hu
    refine (readOneResponse_endBytes hf hv (hmemc ▸ hP) (ht.cursorActive.trans hs.cursorActive) buffer
      s.result (hmemc ▸ hlast) hu).mono fun reply u hr => ?_
    obtain ⟨hrc, htook⟩ := hr
    have hcopied := hopen htook
    exact ⟨hrc, ⟨htook.cursorActive, htook.writeBuffer.trans hw, map_eq_nil_iff.mp (htook.rest hu),
      hcopied⟩, htook.memc.trans hmemc, htook.isPurging.trans hpurging⟩
  | @cons hit part hits parts hpart hparts =>
    rw [flatten_cons, append_assoc, ← ht.unread] at hu
    refine (readOneResponse_hitBytes hf hv (hmemc ▸ hP) (ht.cursorActive.trans hs.cursorActive) buffer
      s.result (hmemc ▸ hs.named hit mem_cons_self) (hmemc ▸ hpart) hu).mono fun reply u hr => ?_
    obtain ⟨hrc, hresult, htook⟩ := hr
    have hcopied := hopen htook
    exact ⟨⟨hrc, by rw [hresult, hmemc]⟩, ⟨htook.valid.trans hv, htook.cursorActive,
      htook.writeBuffer.trans hw, hcopied, fun h hm => hs.named h (mem_cons_of_mem _ hm), parts,
      last, hparts, hlast, htook.rest hu⟩, htook.memc.trans hmemc, htook.isPurging.trans hpurging⟩

/-! ## The client -/

variable {memc : Memcached} {c : Client κ} {left : List (Option (List Hit))}

theorem onServer_ensures {m : Act κ α} {Q : α → Client κ → Prop} (hk : c.conns[k]? = some conn)
    (h : Ensures m ⟨conn, c.toShared⟩ fun a s => Q a { c with toShared := s.toShared, conns := c.conns.set k s.toConn }) :
    Ensures (onServer k m) c Q := by
  obtain ⟨a, s, hm, hq⟩ := h
  exact ⟨a, _, by simp [onServer, hk, hm], hq⟩

/-- The items that are left. -/
def hitsLeft (left : List (Option (List Hit))) : List Hit := left.flatMap (·.getD [])

/-- The number of servers that have not sent all. -/
def serversLeft (left : List (Option (List Hit))) : Nat := left.countP (·.isSome)

/-- The client is fetching what is left. -/
structure Client.Fetching (pending : κ → List InByte) (memc : Memcached) (c : Client κ)
    (left : List (Option (List Hit))) : Prop where
  settings : c.memc = memc
  isPurging : c.isPurging = false
  conns : List.Forall₂ (Conn.Left pending memc) c.conns left

theorem Conn.Left.isSome_of_cursorActive (h : conn.Left pending memc l) (hc : 0 < conn.cursorActive) :
    ∃ hits, l = some hits := by
  cases l with
  | none => exact absurd h.cursorActive (Nat.pos_iff_ne_zero.mp hc)
  | some hits => exact ⟨hits, rfl⟩

theorem Conn.Left.isSome_of_readBuffer (h : conn.Left pending memc l) (hc : conn.readBuffer ≠ []) :
    ∃ hits, l = some hits := by
  cases l with
  | none => exact absurd (append_eq_nil_iff.mp h.unread).1 hc
  | some hits => exact ⟨hits, rfl⟩

/-- What the first loop of `memcached_io_get_readable_server` finds: the server it stops at has data
in its buffer, and the servers to poll have an answer outstanding. -/
theorem scanServers_spec (x : Nat) (conns : List (Conn κ)) (polled : List Nat) :
    match scanServers x conns polled with
    | .inl k => ∃ i conn, k = x + i ∧ conns[i]? = some conn ∧ conn.readBuffer ≠ []
    | .inr ks => ∃ found, ks = polled ++ found ∧
        ∀ k ∈ found, ∃ i conn, k = x + i ∧ conns[i]? = some conn ∧ 0 < conn.cursorActive := by
  induction conns generalizing x polled with
  | nil => exact ⟨[], by simp, by simp⟩
  | cons conn conns ih =>
    rw [scanServers]
    by_cases hmax : maxServersToPoll ≤ polled.length
    · rw [if_pos hmax]
      exact ⟨[], by simp, by simp⟩
    · rw [if_neg hmax]
      by_cases hbuffer : conn.readBuffer ≠ []
      · rw [if_pos hbuffer]
        exact ⟨0, conn, rfl, rfl, hbuffer⟩
      · rw [if_neg hbuffer]
        have hrest := ih (x + 1) (if 0 < conn.cursorActive then polled ++ [x] else polled)
        generalize scanServers (x + 1) conns _ = result at hrest ⊢
        cases result with
        | inl k =>
          obtain ⟨i, conn', hk, hi, hne⟩ := hrest
          exact ⟨i + 1, conn', by omega, hi, hne⟩
        | inr ks =>
          obtain ⟨found, hks, hfound⟩ := hrest
          have hlater : ∀ k ∈ found, ∃ i conn', k = x + i ∧
              (conn :: conns)[i]? = some conn' ∧ 0 < conn'.cursorActive := by
            intro k hk
            obtain ⟨i, conn', hk, hi, hpos⟩ := hfound k hk
            exact ⟨i + 1, conn', by omega, hi, hpos⟩
          split at hks
          · rename_i hpos
            refine ⟨x :: found, by simp [hks], fun k hk => ?_⟩
            rcases mem_cons.mp hk with rfl | hk
            · exact ⟨0, conn, rfl, rfl, hpos⟩
            · exact hlater k hk
          · exact ⟨found, hks, hlater⟩

/-- `poll` neither fails nor runs out of time: it reports one of the sockets. -/
def Polls (poller : Poller κ) : Prop :=
  ∀ c polled, polled ≠ [] → ∃ ready, poller c polled = .ok ready ∧ ∃ k ∈ polled, k ∈ ready

/-- The server that is read from next has something left, and if there is none, nothing is left. -/
theorem getReadableServer_fetching (hpoll : Polls poller) (hc : c.Fetching pending memc left) :
    Ensures (memcachedIoGetReadableServer poller) c fun r c' =>
      c' = c ∧ match r with
        | none => ∀ l ∈ left, l = none
        | some k => ∃ hits, left[k]? = some (some hits) := by
  -- A server with an answer outstanding has something left.
  have hpos {k : Nat} {conn : Conn κ} (hk : c.conns[k]? = some conn) (h : 0 < conn.cursorActive) :
      ∃ hits, left[k]? = some (some hits) := by
    obtain ⟨l, hl, hleft⟩ := forall₂_getElem? hc.conns hk
    obtain ⟨hits, rfl⟩ := hleft.isSome_of_cursorActive h
    exact ⟨hits, hl⟩
  have hscan := scanServers_spec 0 c.conns []
  simp only [memcachedIoGetReadableServer, ensures_bind, ensures_get]
  generalize scanServers 0 c.conns [] = result at hscan ⊢
  cases result with
  | inl k =>
    obtain ⟨i, conn, rfl, hi, hne⟩ := hscan
    obtain ⟨l, hl, hleft⟩ := forall₂_getElem? hc.conns hi
    obtain ⟨hits, rfl⟩ := hleft.isSome_of_readBuffer hne
    exact ensures_pure.mpr ⟨rfl, hits, by rw [Nat.zero_add]; exact hl⟩
  | inr polled =>
    obtain ⟨found, hks, hfound⟩ := hscan
    rw [nil_append] at hks
    subst hks
    refine ensures_ite (fun _ => ensures_pure.mpr ⟨rfl, ?_⟩) fun htwo => ?_
    · cases hidx : c.conns.findIdx? fun conn => decide (0 < conn.cursorActive) with
      | none =>
        intro l hl
        obtain ⟨k, hk, rfl⟩ := mem_iff_getElem.mp hl
        obtain ⟨conn, hconn, hleft⟩ :=
          forall₂_getElem?_right hc.conns (List.getElem?_eq_getElem hk)
        have hzero := List.findIdx?_eq_none_iff.mp hidx conn (mem_of_getElem? hconn)
        cases h : left[k] with
        | none => rfl
        | some hits =>
          rw [h] at hleft
          have hone : conn.cursorActive = 1 := Conn.Holds.cursorActive hleft
          simp [hone] at hzero
      | some k =>
        obtain ⟨hlt, hpred, -⟩ := List.findIdx?_eq_some_iff_getElem.mp hidx
        exact hpos (List.getElem?_eq_getElem hlt) (by simpa using hpred)
    · obtain ⟨ready, hready, k, hk, hmem⟩ := hpoll c polled (by rintro rfl; exact htwo (by decide))
      simp only [hready]
      refine ensures_pure.mpr ⟨rfl, ?_⟩
      cases hfind : polled.find? (· ∈ ready) with
      | none => exact absurd hmem (by simpa using List.find?_eq_none.mp hfind k hk)
      | some j =>
        obtain ⟨i, conn, rfl, hi, h⟩ := hfound j (mem_of_find?_eq_some hfind)
        rw [Nat.zero_add]
        exact hpos hi h

theorem responseInto_ensures {result : Result} {Q : ReturnT × Result → St κ → Prop}
    (h : Ensures (memcachedResponse K length) { s with result := result } fun rc t => Q (rc, t.result) { t with result := s.result }) :
    Ensures (responseInto K length result) s Q := by
  simp only [responseInto, ensures_bind, ensures_get, ensures_set]
  exact h.mono fun rc t ht => ensures_pure.mpr ht

section Fetch

variable (hS : Accepts K pending A) (hf : Fills K pending P) (hP : P memc)
include hS hf hP

theorem responseInto_fetching (hc : c.Fetching pending memc left) (hk : left[k]? = some (some hits))
    (result : Result) : Ensures (onServer k (responseInto K defaultCommandSize result)) c fun r c' =>
      ReadsNext memc hits r.1 r.2 ∧ c'.Fetching pending memc (left.set k hits.tail?) := by
  obtain ⟨conn, hconn, hholds⟩ := forall₂_getElem?_right hc.conns hk
  have hmemc := hc.settings
  subst hmemc
  refine onServer_ensures hconn (responseInto_ensures ?_)
  refine (memcachedResponse_holds hS hf (s := ⟨conn, { c.toShared with result := result }⟩) hP
    hc.isPurging hholds).mono fun rc t ht => ?_
  obtain ⟨hanswer, hleft, hm, hp⟩ := ht
  exact ⟨hanswer, hm, hp, forall₂_set hc.conns hleft k⟩

omit hS hf hP in
theorem responseReset_fetching (hc : c.Fetching pending memc left) (hk : left[k]? = some none) :
    Ensures (onServer k responseReset) c fun _ c' => c'.Fetching pending memc left := by
  obtain ⟨conn, hconn, hrested⟩ := forall₂_getElem?_right hc.conns hk
  refine onServer_ensures hconn (ensures_modify.mpr ⟨hc.settings, hc.isPurging, ?_⟩)
  have hset : left.set k none = left := by
    obtain ⟨hlt, hnone⟩ := List.getElem?_eq_some_iff.mp hk
    rw [← hnone, set_getElem_self]
  have hr : conn.Rested pending := hrested
  have hleft : ({ conn with cursorActive := 0 } : Conn κ).Left pending memc none :=
    ⟨rfl, hr.writeBuffer, hr.unread, hr.copied⟩
  have hconns := forall₂_set hc.conns hleft k
  rwa [hset] at hconns

/-- `memcached_fetch_result`: an item is taken, or nothing is left. -/
theorem fetchLoop_fetching (hpoll : Polls poller) (hc : c.Fetching pending memc left)
    (hfuel : serversLeft left < fuel) (f : Fetch) : Ensures (fetchLoop K poller fuel f) c fun r c' =>
      (∃ hit left', r.1 = true ∧ r.2.result = memc.itemOf hit ∧ c'.Fetching pending memc left' ∧
        (hitsLeft left).Perm (hit :: hitsLeft left')) ∨
      (r.1 = false ∧ hitsLeft left = [] ∧ ∀ conn ∈ c'.conns, conn.Rested pending) := by
  induction fuel generalizing c left f with
  | zero => omega
  | succ fuel ih =>
    simp only [fetchLoop, ensures_bind]
    refine (getReadableServer_fetching hpoll hc).mono fun r c' hr => ?_
    obtain ⟨rfl, hr⟩ := hr
    cases r with
    | none =>
      refine ensures_pure.mpr (.inr ⟨rfl, ?_, fun conn hm => ?_⟩)
      · refine flatMap_eq_nil_iff.mpr fun l hl => ?_
        rw [hr l hl]
        rfl
      · obtain ⟨k, hk, rfl⟩ := mem_iff_getElem.mp hm
        obtain ⟨l, hl, hleft⟩ := forall₂_getElem? hc.conns (List.getElem?_eq_getElem hk)
        rw [hr l (mem_of_getElem? hl)] at hleft
        exact hleft
    | some k =>
      obtain ⟨hits, hk⟩ := hr
      have hlt : k < left.length := (List.getElem?_eq_some_iff.mp hk).1
      obtain ⟨before, after, hall, hset⟩ := flatMap_set (·.getD []) hk
      simp only [ensures_bind]
      refine (responseInto_fetching hS hf hP hc hk f.result).mono fun r c' hr => ?_
      obtain ⟨rc, result⟩ := r
      cases hits with
      | cons hit hits =>
        obtain ⟨⟨rfl, rfl⟩, hc'⟩ := hr
        refine ensures_pure.mpr (.inl ⟨hit, left.set k (some hits), rfl, rfl, hc', ?_⟩)
        rw [hitsLeft, hitsLeft, hall, hset (some hits)]
        exact perm_middle
      | nil =>
        obtain ⟨rfl, hc'⟩ := hr
        rw [tail?_nil] at hc'
        simp only [ensures_bind]
        refine (responseReset_fetching hc' (List.getElem?_set_self hlt)).mono fun _ c'' hc'' => ?_
        have hcount : serversLeft (left.set k none) < fuel := by
          have hsome : left[k] = some [] := (List.getElem?_eq_some_iff.mp hk).2
          have hpos : 0 < left.countP (·.isSome) :=
            countP_pos_iff.mpr ⟨_, getElem_mem hlt, by simp [hsome]⟩
          rw [serversLeft, countP_set hlt, hsome]
          simp only [serversLeft] at hfuel
          simp only [Option.isSome_some, if_true, Option.isSome_none, Bool.false_eq_true, if_false]
          omega
        refine (ih hc'' hcount _).mono fun r d hr => ?_
        have hsame : hitsLeft (left.set k none) = hitsLeft left := by
          rw [hitsLeft, hitsLeft, hall, hset none]
          rfl
        rwa [hsame] at hr

omit hS hf hP in
theorem serversLeft_le (K : Kernel κ) {conns : List (Conn κ)}
    (h : List.Forall₂ (Conn.Left pending memc) conns left) : serversLeft left ≤ (conns.map fun conn =>
      conn.readBuffer.length + K.supply conn.net + conn.cursorActive).sum := by
  induction h with
  | nil => simp [serversLeft]
  | @cons conn l conns left hleft _ ih =>
    have hone : (if l.isSome then 1 else 0) ≤ conn.cursorActive := by
      cases l with
      | none => exact Nat.zero_le _
      | some hits => exact Nat.le_of_eq (Conn.Holds.cursorActive hleft).symm
    simp only [serversLeft, countP_cons, map_cons, sum_cons] at ih ⊢
    omega

/-- A caller that fetches until there is no more gets all that is left. -/
theorem fetchAll_fetching (hpoll : Polls poller) (own : List Result → Result × Nat)
    (hc : c.Fetching pending memc left) (hfuel : (hitsLeft left).length < fuel) (fetched : List Result) :
    Ensures (fetchAll K poller own fuel fetched) c fun results c' =>
      results.Perm (fetched ++ (hitsLeft left).map memc.itemOf) ∧ ∀ conn ∈ c'.conns, conn.Rested pending := by
  induction fuel generalizing c left fetched with
  | zero => omega
  | succ fuel ih =>
    simp only [fetchAll, memcachedFetchResult, ensures_bind, ensures_get]
    refine (fetchLoop_fetching hS hf hP hpoll hc
      (Nat.lt_succ_of_le (serversLeft_le K hc.conns)) _).mono fun r c' hr => ?_
    obtain ⟨found, f⟩ := r
    rcases hr with ⟨hit, left', rfl, hresult, hc', hperm⟩ | ⟨rfl, hnil, hrested⟩
    · simp only [if_true, ensures_pure]
      have hlen := hperm.length_eq
      rw [length_cons] at hlen
      refine (ih hc' (by omega) _).mono fun results d hd => ⟨hd.1.trans ?_, hd.2⟩
      have hresult : f.result = memc.itemOf hit := hresult
      rw [hresult, append_assoc, singleton_append, ← map_cons]
      exact (hperm.symm.map _).append_left _
    · simp only [Bool.false_eq_true, if_false, ensures_pure]
      exact ⟨by rw [hnil, map_nil, append_nil], hrested⟩

end Fetch

end LM
