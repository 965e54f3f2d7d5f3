import LibMemcached.Proof.Bounds
import LibMemcached.Proof.Fetching
import LibMemcached.Proof.Routing
import LibMemcached.Proof.Splitting

/-!
# Multi-get

`memcached_mget` asks each server for the keys that are routed to it, and `memcached_fetch_result`
collects what they return. On one connection the keys are written behind one another
(`addKey_asks`, `binaryAddKey_asks`) and the command is ended (`endGet_asks`, `sendNoop_asks`); then
the connection holds the items the server returned. The loops of `mget_by_key_real` over the keys and
over the servers keep that on every connection, so that a caller who fetches to the end gets
every hit exactly once (`mget_fetches_every_hit`).
-/

namespace LM

open List RequestHeader Hashkit

variable {κ : Type} {K : Kernel κ} {pending : κ → List InByte} {A : Request → List InByte → Prop}
  {P : Memcached → Prop} {memc : Memcached} {store : Bytes → Option Hit} {keys : List Bytes} {s : St κ}
  {requests : List Request} {c : Conn κ} {k : Nat} {t : St κ} {key groupKey : Bytes} {H : Hashes}
  {mgetMode : Bool} (copied : List OutByte)

/-! ## What a server is asked and returns -/

/-- The command for keys, without the end of the line. -/
def Memcached.getText (memc : Memcached) (keys : List Bytes) : Bytes :=
  ascii (if memc.flags.supportCas then "gets" else "get") ++
    keys.flatMap fun key => ascii " " ++ (memc.keyNamespace ++ key)

/-- The server returns for each requested key its item or a miss, as `store` has it. If the client has an
encoding key, the values were encrypted with it. -/
structure ServesGets (A : Request → List InByte → Prop) (memc : Memcached) (store : Bytes → Option Hit) :
    Prop where
  key (key : Bytes) (hit : Hit) : store key = some hit → hit.key = memc.keyNamespace ++ key
  plain (key : Bytes) (hit : Hit) : memc.flags.binaryProtocol = false → store key = some hit →
    (memc.decrypted hit.body).isSome = true
  /-- The text commands `get` and `gets`. -/
  get (id : Nat) (keys : List Bytes) (cells : List InByte) :
    memc.flags.binaryProtocol = false → A ⟨id, false, memc.getText keys ++ [13, 10]⟩ cells →
    ∃ parts last, List.Forall₂ (HitBytes memc) (keys.filterMap store) parts ∧ EndBytes memc last ∧
      bytesOf cells = parts.flatten ++ last
  /-- A miss is not answered. -/
  getkq (id : Nat) (requestId : UInt32) (key : Bytes) (cells : List InByte) :
    memc.flags.binaryProtocol = true →
    A ⟨id, true, (getRequest memc.keyNamespace key .getkq requestId).flatten⟩ cells →
    match store key with
    | none => cells = []
    | some hit => HitBytes memc hit (bytesOf cells)
  noop (id : Nat) (requestId : UInt32) (cells : List InByte) :
    memc.flags.binaryProtocol = true → A ⟨id, false, requestHeader .noop requestId 0 0 0 0⟩ cells →
    EndBytes memc (bytesOf cells)

/-- The names of the items fit where the client keeps them: into a line of the text protocol, or into
`item_key`. -/
def Memcached.KeysFit (memc : Memcached) (keys : List Bytes) : Prop :=
  ∀ key ∈ keys, memc.keyNamespace.length + key.length ≤
    if memc.flags.binaryProtocol then maxKey else maxLineKey

/-! ## One connection -/

/-- The server was sent or is to be sent `requests`, and what it answered is on its way. -/
structure Conn.Asked (pending : κ → List InByte) (A : Request → List InByte → Prop) (c : Conn κ)
    (requests : List Request) : Prop where
  valid : c.valid = true
  readBuffer : c.readBuffer = []
  room : c.writeBuffer.length ≤ maxBuffer
  asked : ∃ rs answers, List.Forall₂ A rs answers ∧ pending c.net = answers.flatten ∧
    requests = rs ++ requestsOf c.writeBuffer

theorem Wrote.asked {cells : List OutByte} (h : Wrote pending A s cells t)
    (hs : s.toConn.Asked pending A requests) (hroom : t.writeBuffer.length ≤ maxBuffer) :
    t.toConn.Asked pending A (requests ++ requestsOf cells) where
  valid := h.valid
  readBuffer := h.readBuffer.trans hs.readBuffer
  room := hroom
  asked := by
    obtain ⟨rs, answers, hA, hp, rfl⟩ := hs.asked
    obtain ⟨sent, answers', hsent, hA', hp'⟩ := h.sent
    refine ⟨rs ++ requestsOf sent, answers ++ answers', rel_append hA hA', ?_, ?_⟩
    · rw [hp', hp, flatten_append]
    · rw [append_assoc, ← Wrote.requestsOf_append, hsent, Wrote.requestsOf_append, append_assoc]

theorem Conn.Asked.answers (h : c.Asked pending A requests) (hw : c.writeBuffer = []) :
    ∃ answers, List.Forall₂ A requests answers ∧ c.unread pending = answers.flatten := by
  obtain ⟨rs, answers, hA, hp, rfl⟩ := h.asked
  refine ⟨answers, ?_, ?_⟩
  · rw [hw]
    simpa [requestsOf] using hA
  · rw [Conn.unread, h.readBuffer, hp, nil_append]

theorem Conn.Asked.lone (h : s.toConn.Asked pending A requests) (hp : s.isPurging = false)
    (hc : s.cursorActive ≤ 1) : Lone s :=
  ⟨h.valid, hp, hc, h.room⟩

theorem memcachedConnect_rested (hS : Accepts K pending A) (hs : s.toConn.Rested pending) :
    Ensures (memcachedConnect K) s fun rc s' => rc = .success ∧ s'.toShared = s.toShared ∧
      s'.toConn.Asked pending A [] ∧ s'.cursorActive = 0 ∧ openBytes s'.copied = [] := by
  have hbuffer : s.readBuffer = [] := (append_eq_nil_iff.mp hs.unread).1
  have hroom : s.writeBuffer.length ≤ maxBuffer := by
    rw [hs.writeBuffer]
    exact Nat.zero_le _
  simp only [memcachedConnect, ensures_bind, ensures_get]
  refine ensures_ite (fun hv => ensures_pure.mpr ?_) fun _ => ?_
  · refine ⟨rfl, rfl, ⟨hv, hbuffer, hroom, [], [], .nil, ?_, ?_⟩, hs.cursorActive, hs.copied⟩
    · exact (append_eq_nil_iff.mp hs.unread).2
    · simp [hs.writeBuffer, requestsOf]
  · obtain ⟨_, net, hconnect, hpending⟩ := hS.connect s.memc s.backoff s.net
    simp only [hconnect, ensures_bind, ensures_set]
    refine ensures_pure.mpr ⟨rfl, rfl, ⟨rfl, hbuffer, hroom, [], [], .nil, hpending, ?_⟩,
      hs.cursorActive, ?_⟩
    · simp [hs.writeBuffer, requestsOf]
    · simp [hs.writeBuffer, openBytes]

/-! ## Bytes that end a command, and bytes that do not -/

theorem openBytes_append_untagged (bytes : Bytes) :
    openBytes (copied ++ untagged bytes) = openBytes copied ++ bytes := by
  have hall : ∀ o ∈ (untagged bytes).reverse, o.ends.isNone = true := by
    intro o ho
    obtain ⟨b, -, rfl⟩ := mem_map.mp (mem_reverse.mp ho)
    rfl
  rw [openBytes, reverse_append, takeWhile_append_of_pos hall, openBytes]
  simp [untagged, Function.comp_def]

theorem openBytes_append_tagged {o : OutByte} (h : o.ends.isSome) : openBytes (copied ++ [o]) = [] := by
  have hnot : ¬o.ends.isNone = true := by
    cases he : o.ends with
    | none => simp [he] at h
    | some r => simp
  simp [openBytes, hnot]

theorem requestsOf_untagged (bytes : Bytes) : requestsOf (untagged bytes) = [] := by
  simp [requestsOf, untagged]

/-! ## The text protocol -/

/-- The keys were asked for, and the command has not ended; if there are none, nothing was done. -/
def Conn.TextAsks (pending : κ → List InByte) (A : Request → List InByte → Prop) (memc : Memcached)
    (c : Conn κ) (keys : List Bytes) : Prop :=
  if keys = [] then c.Rested pending
  else c.Asked pending A [] ∧ c.cursorActive = 1 ∧ openBytes c.copied = memc.getText keys

theorem Memcached.getText_append (memc : Memcached) (keys : List Bytes) (key : Bytes) :
    memc.getText (keys ++ [key]) = memc.getText keys ++ (ascii " " ++ (memc.keyNamespace ++ key)) := by
  simp [Memcached.getText]

section

variable (hS : Accepts K pending A) (hp : s.isPurging = false) (hs : s.toConn.TextAsks pending A s.memc keys)
include hS hp hs

theorem startGet_asks (m : Mget) :
    Ensures (startGet K (ascii (if s.memc.flags.supportCas then "gets" else "get")) m) s
      fun r s' => r.1 = true ∧ s'.toShared = s.toShared ∧ s'.toConn.Asked pending A [] ∧
        s'.cursorActive = 1 ∧ openBytes s'.copied = s.memc.getText keys := by
  simp only [startGet, ensures_bind, ensures_get]
  rw [Conn.TextAsks] at hs
  split at hs
  · rename_i hnil
    subst hnil
    rw [if_pos hs.cursorActive]
    simp only [ensures_bind]
    refine (memcachedConnect_rested hS hs).mono fun rc t ht => ?_
    obtain ⟨rfl, hshared, hasked, hzero, hopen⟩ := ht
    have hlone : Lone t :=
      hasked.lone ((congrArg Shared.isPurging hshared).trans hp) (by rw [hzero]; exact Nat.zero_le 1)
    simp only [ReturnT.isFailed, Bool.false_eq_true, if_false, ensures_bind]
    refine (memcachedIoWritev_writing hS [untagged _] false hlone).mono fun ok u hu => ?_
    obtain ⟨rfl, hwrote, hlone', -⟩ := hu
    simp only [if_true, responseIncrement, ensures_bind, ensures_modify, ensures_pure]
    have hcopied := hwrote.copied
    have hasked' := hwrote.asked hasked hlone'.room
    simp only [flatten_cons, flatten_nil, append_nil, requestsOf_untagged] at hcopied hasked'
    refine ⟨trivial, hwrote.shared.trans hshared, ⟨hasked'.valid, hasked'.readBuffer, hasked'.room,
      hasked'.asked⟩, ?_, ?_⟩
    · simp [hwrote.cursorActive, hzero]
    · rw [hcopied, openBytes_append_untagged, hopen]
      simp [Memcached.getText]
  · obtain ⟨hasked, hone, hopen⟩ := hs
    rw [if_neg (by rw [hone]; decide)]
    exact ensures_pure.mpr ⟨rfl, rfl, hasked, hone, hopen⟩

theorem addKey_asks (key : Bytes) (m : Mget) :
    Ensures (addKey K (ascii (if s.memc.flags.supportCas then "gets" else "get")) key m) s
      fun _ s' => s'.toShared = s.toShared ∧ s'.toConn.TextAsks pending A s.memc (keys ++ [key]) := by
  simp only [addKey, ensures_bind]
  refine (startGet_asks hS hp hs m).mono fun r t ht => ?_
  obtain ⟨hr, hshared, hasked, hone, hopen⟩ := ht
  have hmemc : t.memc = s.memc := congrArg Shared.memc hshared
  have hlone : Lone t :=
    hasked.lone ((congrArg Shared.isPurging hshared).trans hp) (Nat.le_of_eq hone)
  simp only [hr, if_true, ensures_bind, ensures_get, hmemc]
  refine (memcachedIoWritev_writing hS _ false hlone).mono fun ok u hu => ?_
  obtain ⟨rfl, hwrote, hlone', -⟩ := hu
  have hcells : [untagged (ascii " "), untagged s.memc.keyNamespace, untagged key].flatten =
      untagged (ascii " " ++ (s.memc.keyNamespace ++ key)) := by
    simp [untagged]
  have hcopied := hwrote.copied
  have hasked' := hwrote.asked hasked hlone'.room
  rw [hcells] at hcopied hasked'
  rw [requestsOf_untagged, append_nil] at hasked'
  refine ensures_pure.mpr ⟨hwrote.shared.trans hshared, ?_⟩
  rw [Conn.TextAsks, if_neg (by simp)]
  refine ⟨hasked', hwrote.cursorActive.trans hone, ?_⟩
  rw [hcopied, openBytes_append_untagged, hopen, Memcached.getText_append]

end

/-- The connection has what the server returned for the keys; if there are none, nothing was done. -/
def Conn.Returns (pending : κ → List InByte) (memc : Memcached) (store : Bytes → Option Hit) (c : Conn κ)
    (keys : List Bytes) : Prop :=
  if keys = [] then c.Rested pending else c.Holds pending memc (keys.filterMap store)

theorem ServesGets.named (hG : ServesGets A memc store) (hfit : memc.KeysFit keys)
    (hne : ∀ key ∈ keys, key ≠ []) : ∀ hit ∈ keys.filterMap store, hit.Named memc := by
  intro hit hmem
  obtain ⟨key, hkey, hstore⟩ := mem_filterMap.mp hmem
  have hname := hG.key key hit hstore
  refine ⟨?_, fun hb => ?_, fun hb => hG.plain key hit hb hstore⟩
  · rw [hname, length_append]
    exact Nat.lt_add_of_pos_right (length_pos_iff.mpr (hne key hkey))
  · have hlen := hfit key hkey
    rw [hb, if_neg (by decide)] at hlen
    rw [hname, length_append]
    exact hlen

theorem endGet_asks (hS : Accepts K pending A) (hp : s.isPurging = false) (hG : ServesGets A s.memc store)
    (hb : s.memc.flags.binaryProtocol = false) (hfit : s.memc.KeysFit keys) (hne : ∀ key ∈ keys, key ≠ [])
    (hs : s.toConn.TextAsks pending A s.memc keys) (done : Bool × Bool) :
    Ensures (endGet K done) s fun _ s' => s'.memc = s.memc ∧ s'.isPurging = false ∧
      s'.toConn.Returns pending s.memc store keys := by
  simp only [endGet, ensures_bind, ensures_get, Conn.Returns]
  rw [Conn.TextAsks] at hs
  split at hs
  · rename_i hnil
    simp only [if_pos hs.cursorActive, if_pos hnil]
    exact ensures_pure.mpr ⟨rfl, hp, hs⟩
  · rename_i hnil
    obtain ⟨hasked, hone, hopen⟩ := hs
    have hcursor : ¬s.cursorActive = 0 := by
      rw [hone]
      decide
    simp only [if_neg hcursor, if_neg hnil, hopen, ensures_bind, ensures_set]
    have hlone : Lone { s with issued := s.issued + 1 } :=
      ⟨hasked.valid, hp, Nat.le_of_eq hone, hasked.room⟩
    refine (memcachedIoWrite_writing hS _ true hlone).mono fun ok u hu => ?_
    obtain ⟨rfl, hwrote, hlone', hflushed⟩ := hu
    have hmemc : u.memc = s.memc := (congrArg Shared.memc hwrote.shared).trans rfl
    have hpurging : u.isPurging = false := (congrArg Shared.isPurging hwrote.shared).trans hp
    have hasked' := hwrote.asked hasked hlone'.room
    obtain ⟨answers, hA, hunread⟩ := hasked'.answers (hflushed rfl)
    rcases hA with _ | ⟨hanswer, hA⟩
    cases hA
    rename_i cells
    rw [flatten_singleton] at hunread
    obtain ⟨parts, last, hparts, hlast, hbytes⟩ := hG.get _ keys cells hb hanswer
    refine ensures_pure.mpr ⟨hmemc, hpurging, hasked'.valid, hwrote.cursorActive.trans hone,
      hflushed rfl, ?_, hG.named hfit hne, parts, last, hparts, hlast, by rw [hunread, hbytes]⟩
    rw [hwrote.copied, show ∀ a b : OutByte, [a, b] = [a] ++ [b] from fun _ _ => rfl, ← append_assoc]
    exact openBytes_append_tagged _ rfl

/-! ## The binary protocol -/

/-- A request for the key that is only answered by a hit. -/
def AsksFor (memc : Memcached) (key : Bytes) (r : Request) : Prop :=
  r.quiet = true ∧ ∃ requestId, r.bytes = (getRequest memc.keyNamespace key .getkq requestId).flatten

/-- The keys were asked for, and the `NOOP` behind them was not written; if there are none, nothing was
done. -/
def Conn.BinaryAsks (pending : κ → List InByte) (A : Request → List InByte → Prop) (memc : Memcached)
    (c : Conn κ) (keys : List Bytes) : Prop :=
  if keys = [] then c.Rested pending
  else c.cursorActive = 1 ∧ openBytes c.copied = [] ∧
    ∃ requests, c.Asked pending A requests ∧ List.Forall₂ (AsksFor memc) keys requests

theorem openBytes_append_command {r : Request} (hne : r.bytes ≠ []) :
    openBytes (copied ++ command r) = [] := by
  obtain ⟨bytes, b, hb⟩ := eq_nil_or_concat r.bytes |>.resolve_left hne
  have hlast : command r = ((bytes.zipIdx.map fun p =>
      (⟨p.1, if p.2 + 1 = r.bytes.length then some r else none⟩ : OutByte))) ++ [⟨b, some r⟩] := by
    simp [command, hb, zipIdx_append]
  rw [hlast, ← append_assoc]
  exact openBytes_append_tagged _ rfl

theorem writeRequest_asks (hS : Accepts K pending A) (hs : Lone s)
    (hasked : s.toConn.Asked pending A requests) (quiet : Bool) {vector : List Bytes}
    (hne : vector.flatten ≠ []) (withFlush : Bool) :
    Ensures (writeRequest K quiet vector withFlush) s fun ok s' =>
      ok = true ∧ s'.memc = s.memc ∧ Lone s' ∧ s'.cursorActive = s.cursorActive ∧
        openBytes s'.copied = [] ∧ (withFlush = true → s'.writeBuffer = []) ∧
        s'.toConn.Asked pending A (requests ++ [⟨s.issued, quiet, vector.flatten⟩]) := by
  simp only [writeRequest, ensures_bind, ensures_get, ensures_set]
  have hlone : Lone { s with issued := s.issued + 1 } := ⟨hs.valid, hs.isPurging, hs.cursorActive, hs.room⟩
  refine (memcachedIoWritev_writing hS _ withFlush hlone).mono fun ok t ht => ?_
  obtain ⟨rfl, hwrote, hlone', hflushed⟩ := ht
  have hwritten := hwrote.asked hasked hlone'.room
  have hcopied := hwrote.copied
  rw [pieces_flatten length_command] at hwritten hcopied
  rw [requestsOf_command hne] at hwritten
  refine ⟨rfl, (congrArg Shared.memc hwrote.shared).trans rfl, hlone', hwrote.cursorActive, ?_, hflushed,
    hwritten⟩
  rw [hcopied]
  exact openBytes_append_command _ hne

theorem getRequest_ne_nil {ns : Bytes} {opcode : Opcode} {requestId : UInt32} :
    (getRequest ns key opcode requestId).flatten ≠ [] := by
  simp [getRequest, requestHeader]

section

variable (hS : Accepts K pending A)
include hS

theorem binaryWriteKey_asks (hp : t.isPurging = false) (hc : t.cursorActive ≤ 1)
    (hasked : t.toConn.Asked pending A requests) (hfor : List.Forall₂ (AsksFor t.memc) keys requests)
    (flush : Bool) (key : Bytes) (rc : ReturnT) :
    Ensures (do
      let requestId ← initializeBinaryRequest
      if ← writeRequest K true (getRequest t.memc.keyNamespace key .getkq requestId) flush then
        responseReset
        responseIncrement
        return (rc, true)
      else
        responseReset
        return (.someErrors, false)) t fun _ s' => s'.memc = t.memc ∧ s'.isPurging = false ∧
      s'.toConn.BinaryAsks pending A t.memc (keys ++ [key]) := by
  simp only [initializeBinaryRequest, ensures_bind, ensures_modify, ensures_get, ensures_pure]
  have hlone : Lone { t with requestId := t.requestId + 1 } := ⟨hasked.valid, hp, hc, hasked.room⟩
  have hnumbered : ({ t with requestId := t.requestId + 1 } : St κ).toConn.Asked pending A requests :=
    ⟨hasked.valid, hasked.readBuffer, hasked.room, hasked.asked⟩
  refine (writeRequest_asks hS hlone hnumbered true getRequest_ne_nil flush).mono fun ok u hu => ?_
  obtain ⟨rfl, hmemc, hlone', -, hopen, -, hasked'⟩ := hu
  simp only [if_true, responseReset, responseIncrement, ensures_bind, ensures_modify, ensures_pure]
  refine ⟨hmemc, hlone'.isPurging, ?_⟩
  rw [Conn.BinaryAsks, if_neg (by simp)]
  exact ⟨rfl, hopen, _, ⟨hasked'.valid, hasked'.readBuffer, hasked'.room, hasked'.asked⟩,
    rel_append hfor (.cons ⟨rfl, _, rfl⟩ .nil)⟩

theorem binaryAddKey_asks (hp : s.isPurging = false) (hs : s.toConn.BinaryAsks pending A s.memc keys)
    (flush : Bool) (key : Bytes) (rc : ReturnT) :
    Ensures (binaryAddKey K true flush key rc) s fun _ s' => s'.memc = s.memc ∧ s'.isPurging = false ∧
      s'.toConn.BinaryAsks pending A s.memc (keys ++ [key]) := by
  simp only [binaryAddKey, ensures_bind, ensures_get, if_true]
  rw [Conn.BinaryAsks] at hs
  split at hs
  · rename_i hnil
    subst hnil
    simp only [hs.cursorActive, if_true, true_and]
    refine (memcachedConnect_rested hS hs).mono fun rc t ht => ?_
    obtain ⟨rfl, hshared, hasked, hzero, -⟩ := ht
    have hmemc : t.memc = s.memc := congrArg Shared.memc hshared
    rw [← hmemc]
    exact binaryWriteKey_asks hS ((congrArg Shared.isPurging hshared).trans hp)
      (by rw [hzero]; exact Nat.zero_le 1) hasked .nil flush key .success
  · obtain ⟨hone, -, requests, hasked, hfor⟩ := hs
    simp only [hone, one_ne_zero, if_false, false_and, ensures_pure]
    exact binaryWriteKey_asks hS hp (Nat.le_of_eq hone) hasked hfor flush key rc

theorem flushBuffer_asks (hp : s.isPurging = false) (hs : s.toConn.BinaryAsks pending A memc keys)
    (ret : ReturnT × Bool) :
    Ensures (flushBuffer K ret) s fun _ s' => s'.memc = s.memc ∧ s'.isPurging = false ∧
      s'.toConn.BinaryAsks pending A memc keys := by
  simp only [flushBuffer, ensures_bind, ensures_get]
  refine ensures_ite (fun _ => ensures_pure.mpr ⟨rfl, hp, hs⟩) fun hbuffer => ?_
  rw [Conn.BinaryAsks] at hs
  split at hs
  · exact absurd (.inr hs.writeBuffer) hbuffer
  · rename_i hnil
    obtain ⟨hone, hopen, requests, hasked, hfor⟩ := hs
    simp only [hasked.valid, Bool.not_true, Bool.false_eq_true, if_false, false_and, ensures_bind,
      ensures_pure]
    refine (memcachedIoWrite_writing hS [] true (hasked.lone hp (Nat.le_of_eq hone))).mono
      fun ok t ht => ?_
    obtain ⟨rfl, hwrote, hlone, -⟩ := ht
    have hasked' := hwrote.asked hasked hlone.room
    simp only [requestsOf, filterMap_nil, append_nil] at hasked'
    refine ensures_pure.mpr ⟨congrArg Shared.memc hwrote.shared, hlone.isPurging, ?_⟩
    rw [Conn.BinaryAsks, if_neg hnil, hwrote.cursorActive, hwrote.copied, append_nil]
    exact ⟨hone, hopen, requests, hasked', hfor⟩

end

/-- What the server answered to the requests for keys are the hits. -/
theorem ServesGets.hits (hG : ServesGets A memc store) (hb : memc.flags.binaryProtocol = true)
    {answers : List (List InByte)} (hfor : List.Forall₂ (AsksFor memc) keys requests)
    (hA : List.Forall₂ A requests answers) :
    ∃ parts, List.Forall₂ (HitBytes memc) (keys.filterMap store) parts ∧
      bytesOf answers.flatten = parts.flatten := by
  induction hfor generalizing answers with
  | nil =>
    cases hA
    exact ⟨[], .nil, rfl⟩
  | @cons key r keys requests hr _ ih =>
    obtain ⟨id, quiet, bytes⟩ := r
    obtain ⟨rfl, requestId, rfl⟩ : quiet = true ∧ ∃ requestId, bytes = _ := hr
    rcases hA with _ | ⟨hanswer, hA⟩
    rename_i cells answers
    obtain ⟨parts, hparts, hbytes⟩ := ih hA
    have hcells := hG.getkq id requestId key cells hb hanswer
    cases hstore : store key with
    | none =>
      rw [hstore] at hcells
      refine ⟨parts, by rwa [filterMap_cons_none hstore], ?_⟩
      rw [flatten_cons, hcells, nil_append, hbytes]
    | some hit =>
      rw [hstore] at hcells
      refine ⟨bytesOf cells :: parts, by rw [filterMap_cons_some hstore]; exact .cons hcells hparts, ?_⟩
      rw [flatten_cons, flatten_cons, ← hbytes, bytesOf, map_append]
      rfl

theorem sendNoop_asks (hS : Accepts K pending A) (hp : s.isPurging = false) (hG : ServesGets A s.memc store)
    (hb : s.memc.flags.binaryProtocol = true) (hfit : s.memc.KeysFit keys) (hne : ∀ key ∈ keys, key ≠ [])
    (hs : s.toConn.BinaryAsks pending A s.memc keys) (rc : ReturnT) :
    Ensures (sendNoop K rc) s fun _ s' => s'.memc = s.memc ∧ s'.isPurging = false ∧
      s'.toConn.Returns pending s.memc store keys := by
  simp only [sendNoop, ensures_bind, ensures_get, Conn.Returns]
  rw [Conn.BinaryAsks] at hs
  split at hs
  · rename_i hnil
    simp only [if_pos hs.cursorActive, if_pos hnil]
    exact ensures_pure.mpr ⟨rfl, hp, hs⟩
  · rename_i hnil
    obtain ⟨hone, -, requests, hasked, hfor⟩ := hs
    have hcursor : ¬s.cursorActive = 0 := by
      rw [hone]
      decide
    simp only [if_neg hnil, if_neg hcursor, initializeBinaryRequest, ensures_bind, ensures_modify,
      ensures_get, ensures_pure]
    have hnumbered : ({ s with requestId := s.requestId + 1 } : St κ).toConn.Asked pending A requests :=
      ⟨hasked.valid, hasked.readBuffer, hasked.room, hasked.asked⟩
    refine (memcachedIoWrite_writing hS [] true (hnumbered.lone hp (Nat.le_of_eq hone))).mono
      fun ok t ht => ?_
    obtain ⟨rfl, hwrote, hlone, -⟩ := ht
    have hasked' := hwrote.asked hnumbered hlone.room
    simp only [requestsOf, filterMap_nil, append_nil] at hasked'
    simp only [if_true]
    refine (writeRequest_asks hS hlone hasked' false (by simp [requestHeader]) true).mono fun ok u hu => ?_
    obtain ⟨rfl, hmemc, hlone', hcounted, hopen, hflushed, hasked''⟩ := hu
    obtain ⟨answers, hA, hunread⟩ := hasked''.answers (hflushed rfl)
    obtain ⟨before, noop, hbefore, hnoop, rfl⟩ := forall₂_append_left hA
    rcases hnoop with _ | ⟨hnoop, hnone⟩
    cases hnone
    rename_i cells
    obtain ⟨parts, hparts, hbytes⟩ := hG.hits hb hfor hbefore
    rw [flatten_singleton] at hnoop
    have hlast := hG.noop _ _ cells hb hnoop
    refine ensures_pure.mpr ⟨hmemc.trans (congrArg Shared.memc hwrote.shared), hlone'.isPurging,
      hasked''.valid, ?_, hflushed rfl, hopen, hG.named hfit hne, parts, bytesOf cells, hparts, hlast, ?_⟩
    · rw [hcounted, hwrote.cursorActive]
      exact hone
    · rw [hunread, flatten_append, ← hbytes, bytesOf, map_append, flatten_singleton]
      rfl

/-! ## All connections -/

/-- The settings that asking for items and fetching them depend on. -/
def Memcached.getView (memc : Memcached) : Memcached where
  flags := memc.flags
  hashkit := memc.hashkit
  namespace_ := memc.namespace_
  numberOfReplicas := memc.numberOfReplicas
  pollTimeout := memc.pollTimeout

theorem Hit.named_getView {hit : Hit} : hit.Named memc.getView ↔ hit.Named memc :=
  ⟨fun h => ⟨h.longer, h.short, h.plain⟩, fun h => ⟨h.longer, h.short, h.plain⟩⟩

theorem Conn.holds_getView {hits : List Hit} :
    c.Holds pending memc.getView hits ↔ c.Holds pending memc hits :=
  ⟨fun h => ⟨h.valid, h.cursorActive, h.writeBuffer, h.copied,
    fun hit hm => Hit.named_getView.mp (h.named hit hm), h.stream⟩,
    fun h => ⟨h.valid, h.cursorActive, h.writeBuffer, h.copied,
      fun hit hm => Hit.named_getView.mpr (h.named hit hm), h.stream⟩⟩

theorem Conn.returns_getView :
    c.Returns pending memc.getView store keys ↔ c.Returns pending memc store keys := by
  unfold Conn.Returns
  split
  · rfl
  · exact Conn.holds_getView

/-- Each connection has the relation `R` to the keys its server was asked for. -/
structure Client.Each (R : Conn κ → List Bytes → Prop) (view : Memcached) (c : Client κ)
    (asked : List (List Bytes)) : Prop where
  view : c.memc.getView = view
  serverCount : c.memc.serverCount = c.conns.length
  isPurging : c.isPurging = false
  conns : List.Forall₂ R c.conns asked

/-- What a function of one server does to its connection. -/
def Turns (view : Memcached) (R R' : Conn κ → Prop) {α : Type} (m : Act κ α) : Prop :=
  ∀ s : St κ, s.memc.getView = view → s.isPurging = false → R s.toConn →
    Ensures m s fun _ s' => s'.memc = s.memc ∧ s'.isPurging = false ∧ R' s'.toConn

section Each

variable {α : Type} {R R' : Conn κ → List Bytes → Prop} {view : Memcached} {c : Client κ}
  {asked : List (List Bytes)}

theorem Client.Each.onServer (hc : c.Each R view asked) {keys' : List Bytes} {m : Act κ α}
    (hk : asked[k]? = some keys) (hm : Turns view (R · keys) (R · keys') m) :
    Ensures (onServer k m) c fun _ c' => c'.Each R view (asked.set k keys') := by
  obtain ⟨conn, hconn, hR⟩ := forall₂_getElem?_right hc.conns hk
  refine onServer_ensures hconn ((hm ⟨conn, c.toShared⟩ hc.view hc.isPurging hR).mono fun a s hs => ?_)
  refine ⟨?_, ?_, hs.2.1, forall₂_set hc.conns hs.2.2 k⟩
  · show s.memc.getView = view
    rw [hs.1]
    exact hc.view
  · show s.memc.serverCount = (c.conns.set k s.toConn).length
    rw [hs.1, length_set]
    exact hc.serverCount

/-- A loop over all servers works on each connection once. -/
theorem foldServers_turns {f : α → Act κ α} (hf : ∀ a, ∀ keys ∈ asked, Turns view (R · keys) (R' · keys) (f a))
    (a : α) (hc : c.Each R view asked) :
    Ensures (foldServers f (List.range c.memc.serverCount) a) c fun _ c' => c'.Each R' view asked := by
  -- The connections before `done` are worked on.
  have hloop : ∀ (todo done : List (Conn κ)) (later earlier : List (List Bytes)) (a : α) (c : Client κ),
      c.conns = done ++ todo → asked = earlier ++ later → List.Forall₂ R' done earlier →
      List.Forall₂ R todo later → c.memc.getView = view → c.memc.serverCount = c.conns.length →
      c.isPurging = false →
      Ensures (foldServers f (List.range' done.length todo.length) a) c fun _ c' => c'.Each R' view asked := by
    intro todo
    induction todo with
    | nil =>
      intro done later earlier a c hconns hasked hdone htodo hview hcount hpurging
      cases htodo
      refine ensures_pure.mpr ⟨hview, hcount, hpurging, ?_⟩
      rw [hconns, hasked, append_nil, append_nil]
      exact hdone
    | cons conn todo ih =>
      intro done later earlier a c hconns hasked hdone htodo hview hcount hpurging
      rcases htodo with _ | ⟨hR, htodo⟩
      rename_i keys later
      have hconn : c.conns[done.length]? = some conn := by
        simp [hconns]
      rw [length_cons, List.range'_succ, foldServers, ensures_bind]
      refine onServer_ensures hconn ((hf a keys (by simp [hasked]) ⟨conn, c.toShared⟩ hview hpurging hR).mono
        fun b s hs => ?_)
      have hnext := ih (done ++ [s.toConn]) later (earlier ++ [keys]) b
        { c with toShared := s.toShared, conns := c.conns.set done.length s.toConn }
        (by simp [hconns]) (by simp [hasked]) (rel_append hdone (.cons hs.2.2 .nil)) htodo
        ((congrArg Memcached.getView hs.1).trans hview)
        (by rw [length_set]; exact (congrArg Memcached.serverCount hs.1).trans hcount) hs.2.1
      rwa [length_append, length_singleton] at hnext
  rw [hc.serverCount, range_eq_range']
  exact hloop c.conns [] asked [] a c rfl rfl .nil hc.conns hc.view hc.serverCount hc.isPurging

theorem Client.Each.onServer_always (hc : c.Each R view asked) {m : Act κ α} {g : List Bytes → List Bytes}
    (hm : ∀ keys, Turns view (R · keys) (R · (g keys)) m) : Always (LM.onServer k m) c fun _ c' =>
      ∃ keys, asked[k]? = some keys ∧ c'.Each R view (asked.set k (g keys)) := by
  cases hk : asked[k]? with
  | some keys =>
    exact ((hc.onServer hk (hm keys)).mono fun _ _ hc' => ⟨keys, rfl, hc'⟩).always
  | none =>
    have hnone : c.conns[k]? = none := by
      rw [List.getElem?_eq_none_iff, hc.conns.length_eq]
      exact List.getElem?_eq_none_iff.mp hk
    intro a c' hrun
    simp [LM.onServer, hnone] at hrun

section

variable (H : Hashes) (memc : Memcached) (now : Nat)

theorem getView_runDistribution : (memc.runDistribution H now).2.getView = memc.getView := by
  have harranged : memc.arranged.getView = memc.getView := by
    unfold Memcached.arranged
    split <;> rfl
  rw [Memcached.runDistribution_eq]
  split
  · rw [Memcached.updateContinuum_frame]
    exact harranged
  · exact harranged

theorem getView_regenForAutoEject : (memc.regenForAutoEject H now).getView = memc.getView := by
  unfold Memcached.regenForAutoEject
  split
  · split
    · exact getView_runDistribution H memc now
    · rfl
  · rfl

end

theorem serverKey_each {env : Env} (hc : c.Each R view asked) :
    Always (serverKey H env key) c fun _ c' => c'.Each R view asked := by
  refine .onClient_bind ?_
  split
  · exact .failure
  · have hview := getView_regenForAutoEject H c.memc env.now
    have hcount := Memcached.serverCount_regenForAutoEject H c.memc env.now
    exact (Always.modify (Q := fun _ e => e.Each R view asked) ⟨hview.trans hc.view,
      hcount.trans hc.serverCount, hc.isPurging, hc.conns⟩).bind fun _ _ he => .pure he

theorem keyServer_each {env : Nat → Env} {master : Option Nat} {x : Nat} (hc : c.Each R view asked) :
    Always (keyServer H env master x key) c fun _ c' => c'.Each R view asked := by
  cases master with
  | some k => exact .pure hc
  | none => exact serverKey_each hc

end Each

theorem perm_flatten_set {asked : List (List Bytes)} (hk : asked[k]? = some keys) (key : Bytes) :
    (asked.set k (keys ++ [key])).flatten.Perm (asked.flatten ++ [key]) := by
  obtain ⟨before, after, hall, hset⟩ := flatMap_set id hk
  rw [flatMap_id] at hall
  rw [← flatMap_id, hset, hall]
  simp only [id_eq, append_assoc]
  have hswap : ([key] ++ after).Perm (after ++ [key]) := perm_append_comm
  exact (hswap.append_left keys).append_left before

/-! ## The loops of `mget_by_key_real` -/

section Mget

variable {H : Hashes} {env : Nat → Env} {master : Option Nat} {view : Memcached} {c : Client κ}
  {asked : List (List Bytes)} (hS : Accepts K pending A)
include hS

theorem addKey_turns (key : Bytes) (m : Mget) (keys : List Bytes) :
    Turns view (Conn.TextAsks pending A view · keys) (Conn.TextAsks pending A view · (keys ++ [key]))
      (addKey K (ascii (if view.flags.supportCas then "gets" else "get")) key m) := by
  rintro s rfl hp hs
  refine (addKey_asks hS hp hs key m).mono fun _ t ht => ?_
  exact ⟨congrArg Shared.memc ht.1, (congrArg Shared.isPurging ht.1).trans hp, ht.2⟩

theorem sendKeys_asks (x : Nat) (keys : List Bytes) (m : Mget)
    (hc : c.Each (Conn.TextAsks pending A view) view asked) :
    Always (sendKeys K H env master (ascii (if view.flags.supportCas then "gets" else "get")) x keys m) c
      fun _ c' => ∃ asked', c'.Each (Conn.TextAsks pending A view) view asked' ∧
        asked'.flatten.Perm (asked.flatten ++ keys) := by
  induction keys generalizing x m c asked with
  | nil => exact .pure ⟨asked, hc, by rw [append_nil]⟩
  | cons key keys ih =>
    refine (keyServer_each hc).bind fun k d hd => ?_
    refine (hd.onServer_always fun keys => addKey_turns hS key m keys).bind fun m e he => ?_
    obtain ⟨before, hk, he⟩ := he
    refine (ih (x + 1) m he).mono fun _ f hf => ?_
    obtain ⟨asked', hf, hperm⟩ := hf
    refine ⟨asked', hf, hperm.trans ?_⟩
    rw [← singleton_append (l := keys), ← append_assoc]
    exact (perm_flatten_set hk key).append_right keys

theorem memcachedFlushBuffers_asks (hc : c.Each (Conn.BinaryAsks pending A view) view asked) :
    Ensures (memcachedFlushBuffers K) c fun _ c' => c'.Each (Conn.BinaryAsks pending A view) view asked := by
  simp only [memcachedFlushBuffers, servers, ensures_bind, ensures_get, ensures_pure]
  exact foldServers_turns (fun ret keys _ s _ hp hs => flushBuffer_asks hS hp hs ret) _ hc

theorem binaryAddKey_turns (flush : Bool) (key : Bytes) (rc : ReturnT) (keys : List Bytes) :
    Turns view (Conn.BinaryAsks pending A view · keys) (Conn.BinaryAsks pending A view · (keys ++ [key]))
      (binaryAddKey K true flush key rc) := by
  rintro s rfl hp hs
  exact binaryAddKey_asks hS hp hs flush key rc

theorem binarySendKeys_asks (flush : Bool) (x : Nat) (keys : List Bytes) (rc : ReturnT)
    (hc : c.Each (Conn.BinaryAsks pending A view) view asked) :
    Always (binarySendKeys K H env master true flush x keys rc) c fun _ c' =>
      ∃ asked', c'.Each (Conn.BinaryAsks pending A view) view asked' ∧
        asked'.flatten.Perm (asked.flatten ++ keys) := by
  induction keys generalizing x rc c asked with
  | nil => exact .pure ⟨asked, hc, by rw [append_nil]⟩
  | cons key keys ih =>
    refine (keyServer_each hc).bind fun k d hd => ?_
    refine (hd.onServer_always fun keys => binaryAddKey_turns hS flush key rc keys).bind fun r e he => ?_
    obtain ⟨before, hk, he⟩ := he
    refine .get_bind (.bind (Q := fun _ f => f.Each (Conn.BinaryAsks pending A view) view
      (asked.set k (before ++ [key]))) (.ite (fun _ => ?_) fun _ => .pure he) fun flushed f hf => ?_)
    · exact (memcachedFlushBuffers_asks hS he).always
    · refine (ih (x + 1) _ hf).mono fun _ g hg => ?_
      obtain ⟨asked', hg, hperm⟩ := hg
      refine ⟨asked', hg, hperm.trans ?_⟩
      rw [← singleton_append (l := keys), ← append_assoc]
      exact (perm_flatten_set hk key).append_right keys

variable (hG : ServesGets A view store)
include hG

theorem asciiMget_returns (hb : view.flags.binaryProtocol = false) (hfit : view.KeysFit keys)
    (hne : ∀ key ∈ keys, key ≠ []) (hc : c.Each (Conn.TextAsks pending A view) view asked)
    (hnone : asked.flatten = []) :
    Always (asciiMget K H env master keys) c fun rc c' => rc.isSuccess = true →
      ∃ asked', c'.Each (Conn.Returns pending view store) view asked' ∧ asked'.flatten.Perm keys := by
  refine .get_bind ?_
  have hflags : c.memc.flags = view.flags := by rw [← hc.view]; rfl
  rw [hflags]
  refine (sendKeys_asks hS 0 keys {} hc).bind fun m d hd => ?_
  obtain ⟨asked', hd, hperm⟩ := hd
  rw [hnone, nil_append] at hperm
  refine .ite (fun _ => .ite (fun hfailed => .pure fun hok => ?_) fun _ => ?_) fun _ => .get_bind ?_
  · rw [ReturnT.isFailed_of_isSuccess hok] at hfailed
    cases hfailed
  · exact .get_bind (.set_bind (.pure fun hok => absurd hok Bool.false_ne_true))
  · have hmem : ∀ keys' ∈ asked', ∀ key ∈ keys', key ∈ keys := fun keys' hkeys' key hkey =>
      hperm.subset (mem_flatten_of_mem hkeys' hkey)
    have hends : Ensures (foldServers (endGet K) (List.range d.memc.serverCount) (false, false)) d
        fun _ e => e.Each (Conn.Returns pending view store) view asked' := by
      refine foldServers_turns (fun done keys' hkeys' s hview hp hs => ?_) _ hd
      obtain rfl := hview
      refine (endGet_asks hS hp ⟨hG.key, hG.plain, hG.get, hG.getkq, hG.noop⟩ hb
        (fun key hkey => hfit key (hmem keys' hkeys' key hkey))
        (fun key hkey => hne key (hmem keys' hkeys' key hkey)) hs done).mono fun _ t ht => ?_
      exact ⟨ht.1, ht.2.1, Conn.returns_getView.mpr ht.2.2⟩
    refine hends.always.bind fun r e he => ?_
    refine .ite (fun _ => .pure fun _ => ⟨asked', he, hperm⟩) fun _ =>
      .ite (fun _ => .pure fun _ => ⟨asked', he, hperm⟩) fun _ => .pure fun hok => ⟨asked', he, hperm⟩

theorem simpleBinaryMget_returns (hb : view.flags.binaryProtocol = true) (hfit : view.KeysFit keys)
    (hne : ∀ key ∈ keys, key ≠ []) (hpass : ∀ key ∈ keys, view.Passes key)
    (hc : c.Each (Conn.BinaryAsks pending A view) view asked) (hnone : asked.flatten = []) :
    Always (simpleBinaryMget K H env master keys true) c fun _ c' =>
      ∃ asked', c'.Each (Conn.Returns pending view store) view asked' ∧ asked'.flatten.Perm keys := by
  have hpass' : ∀ key ∈ keys, c.memc.Passes key := by
    rw [← hc.view] at hpass
    exact hpass
  refine .onClient_bind ?_
  rw [keyTests_pass hpass']
  refine (binarySendKeys_asks hS _ 0 keys _ hc).bind fun rc d hd => .get_bind ?_
  obtain ⟨asked', hd, hperm⟩ := hd
  rw [hnone, nil_append] at hperm
  have hmem : ∀ keys' ∈ asked', ∀ key ∈ keys', key ∈ keys := fun keys' hkeys' key hkey =>
    hperm.subset (mem_flatten_of_mem hkeys' hkey)
  have hends : Ensures (foldServers (sendNoop K) (List.range d.memc.serverCount) rc) d
      fun _ e => e.Each (Conn.Returns pending view store) view asked' := by
    refine foldServers_turns (fun rc keys' hkeys' s hview hp hs => ?_) _ hd
    obtain rfl := hview
    refine (sendNoop_asks hS hp ⟨hG.key, hG.plain, hG.get, hG.getkq, hG.noop⟩ hb
      (fun key hkey => hfit key (hmem keys' hkeys' key hkey))
      (fun key hkey => hne key (hmem keys' hkeys' key hkey)) hs rc).mono fun _ t ht => ?_
    exact ⟨ht.1, ht.2.1, Conn.returns_getView.mpr ht.2.2⟩
  exact hends.always.mono fun _ e he => ⟨asked', he, hperm⟩

omit hS hG in
theorem clearQueue_turns (keys : List Bytes) :
    Turns view (fun conn => conn.Rested pending ∧ keys = []) (fun conn => conn.Rested pending ∧ keys = [])
      (clearQueue K) := by
  intro s _ hp hs
  simp only [clearQueue, ensures_bind, ensures_get, if_pos hs.1.cursorActive]
  exact ensures_pure.mpr ⟨rfl, hp, hs⟩

omit hS hG in
theorem Client.Each.mono {R R' : Conn κ → List Bytes → Prop} (h : ∀ conn keys, R conn keys → R' conn keys)
    (hc : c.Each R view asked) : c.Each R' view asked :=
  ⟨hc.view, hc.serverCount, hc.isPurging, hc.conns.imp fun conn keys => h conn keys⟩

section

variable (hmode : view.flags.binaryProtocol = true → view.numberOfReplicas = 0 ∧ mgetMode = true) (hfit : view.KeysFit keys)
include hmode hfit

/-- Everything `mget_by_key_real` does behind the tests of its arguments. -/
theorem mgetTail_returns (hpass : ∀ key ∈ keys, view.Passes key)
    (hc : c.Each (fun conn keys => conn.Rested pending ∧ keys = []) view asked) :
    Always (do
      let master ← (if groupKey = [] then pure none else some <$> serverKey H (env 0) groupKey)
      foldServers (fun _ => clearQueue K) (← servers) ()
      let c ← get
      if c.memc.flags.binaryProtocol then binaryMgetByKey K H env master keys mgetMode
      else asciiMget K H env master keys) c fun rc c' => rc.isSuccess = true →
      ∃ asked', c'.Each (Conn.Returns pending view store) view asked' ∧ asked'.flatten.Perm keys := by
  have hne : ∀ key ∈ keys, key ≠ [] := fun key hkey h => (hpass key hkey).1 (by rw [h]; rfl)
  refine .bind (Q := fun _ d => d.Each (fun conn keys => conn.Rested pending ∧ keys = []) view asked)
    (.ite (fun _ => .pure hc) fun _ => .map (serverKey_each hc)) fun master d hd => .get_bind ?_
  refine (foldServers_turns (fun _ keys _ => clearQueue_turns keys) () hd).always.bind
    fun _ e he => .get_bind ?_
  have hflags : e.memc.flags = view.flags := by rw [← he.view]; rfl
  have hreplicas : e.memc.numberOfReplicas = view.numberOfReplicas := by rw [← he.view]; rfl
  have hnone : asked.flatten = [] := by
    refine flatten_eq_nil_iff.mpr fun keys hkeys => ?_
    obtain ⟨k, hk, rfl⟩ := mem_iff_getElem.mp hkeys
    obtain ⟨conn, -, -, hnil⟩ := forall₂_getElem?_right he.conns (List.getElem?_eq_getElem hk)
    exact hnil
  rw [hflags]
  refine .ite (fun hb => .get_bind ?_) fun hb => ?_
  · obtain ⟨hzero, rfl⟩ := hmode hb
    rw [if_pos (hreplicas.trans hzero)]
    have he' : e.Each (Conn.BinaryAsks pending A view) view asked :=
      he.mono fun conn keys h => by rw [Conn.BinaryAsks, if_pos h.2]; exact h.1
    exact (simpleBinaryMget_returns hS hG hb hfit hne hpass he' hnone).mono fun _ f hf _ => hf
  · have he' : e.Each (Conn.TextAsks pending A view) view asked :=
      he.mono fun conn keys h => by rw [Conn.TextAsks, if_pos h.2]; exact h.1
    exact asciiMget_returns hS hG (by simpa using hb) hfit hne he' hnone

/-- `mget_by_key_real` on a client with nothing outstanding: if it succeeds, each connection has what its
server returned for the keys it was asked for, and every key was asked for once. -/
theorem mgetByKeyReal_returns (hc : c.Each (fun conn keys => conn.Rested pending ∧ keys = []) view asked) :
    Always (mgetByKeyReal K H env groupKey keys mgetMode) c fun rc c' => rc.isSuccess = true →
      ∃ asked', c'.Each (Conn.Returns pending view store) view asked' ∧ asked'.flatten.Perm keys := by
  have hset (rc : ReturnT) (h : rc.isSuccess = false) (message : String) (d : Client κ)
      {Q : Client κ → Prop} :
      Always (onClient fun memc => memc.setError rc message) d fun rc e => rc.isSuccess = true → Q e :=
    .get_bind (.set_bind (.pure fun hok => absurd hok (by simp [h, Memcached.setError])))
  have hrest : c.AtRest := by
    refine ⟨hc.isPurging, fun conn hconn => ?_⟩
    obtain ⟨k, hk, rfl⟩ := mem_iff_getElem.mp hconn
    obtain ⟨_, -, hrested, -⟩ := forall₂_getElem? hc.conns (List.getElem?_eq_getElem hk)
    rw [hrested.writeBuffer]
    exact Nat.zero_le _
  refine (initializeQuery_opened hrest).bind fun rc d hd => ?_
  have hview : d.memc.getView = view := by
    rw [← hc.view, hd.1.memc]
    rfl
  have hd' : d.Each (fun conn keys => conn.Rested pending ∧ keys = []) view asked := by
    refine ⟨hview, ?_, hd.1.atRest.isPurging, by rw [hd.1.conns]; exact hc.conns⟩
    rw [hd.1.conns, ← hc.serverCount, hd.1.memc]
    rfl
  refine .ite (fun hfailed => .pure fun hok => ?_) fun _ => .get_bind ?_
  · rw [ReturnT.isFailed_of_isSuccess hok] at hfailed
    cases hfailed
  refine .ite (fun _ => hset _ rfl _ _) fun _ => .ite (fun _ => hset _ rfl _ _) fun _ => ?_
  refine .onClient_bind ?_
  by_cases hpass : ∀ key ∈ keys, d.memc.Passes key
  · rw [keyTests_pass hpass]
    refine mgetTail_returns hS hG hmode hfit ?_ hd'
    rw [← hview]
    exact hpass
  · rw [(keyTests_fail hpass).1]
    exact .pure fun hok => absurd hok (by decide)

end

omit hS hG in
theorem Client.Each.fetching (hc : c.Each (Conn.Returns pending view store) view asked) :
    ∃ left, c.Fetching pending c.memc left ∧ hitsLeft left = asked.flatten.filterMap store := by
  refine ⟨asked.map fun keys => if keys = [] then none else some (keys.filterMap store),
    ⟨rfl, hc.isPurging, ?_⟩, ?_⟩
  · refine forall₂_map_right_iff.mpr (hc.conns.imp fun conn keys h => ?_)
    have hreturns : conn.Returns pending c.memc store keys := by
      rw [← hc.view] at h
      exact Conn.returns_getView.mp h
    rw [Conn.Returns] at hreturns
    split at hreturns
    · rwa [if_pos ‹_›]
    · rwa [if_neg ‹_›]
  · rw [hitsLeft, flatMap_map, filterMap_flatten]
    congr 1
    funext keys
    split
    · simp [‹keys = []›]
    · rfl

end Mget

/-- Nothing is outstanding on any connection, and there is one for each server. -/
structure Client.Idle (pending : κ → List InByte) (c : Client κ) : Prop where
  serverCount : c.memc.serverCount = c.conns.length
  isPurging : c.isPurging = false
  conns : ∀ conn ∈ c.conns, conn.Rested pending

theorem Client.Idle.each {c : Client κ} (hc : c.Idle pending) :
    c.Each (fun conn keys => conn.Rested pending ∧ keys = []) c.memc.getView
      (List.replicate c.conns.length []) := by
  refine ⟨rfl, hc.serverCount, hc.isPurging, forall₂_iff_get.mpr ⟨by simp, fun i hi hi' => ?_⟩⟩
  exact ⟨hc.conns _ (get_mem _ _), by simp⟩

/-- A multi-get that succeeds, and a caller that then fetches until there is no more: the caller gets the
items of the keys, in some order, and nothing is left on any connection. -/
theorem mget_fetches_every_hit (K : Kernel κ) (hS : Accepts K pending A) (hT : Trickles K pending)
    (H : Hashes) (env : Nat → Env) {poller : Poller κ} (hpoll : Polls poller)
    (own : List Result → Result × Nat) (c : Client κ) (hc : c.Idle pending)
    (hG : ServesGets A c.memc store) (htimeout : c.memc.pollTimeout ≠ 0)
    (hreplicas : c.memc.flags.binaryProtocol = true → c.memc.numberOfReplicas = 0) (keys : List Bytes)
    (hfit : c.memc.KeysFit keys) :
    Always (memcachedMget K H env keys) c fun rc c' => rc.isSuccess = true →
      Ensures (fetchAll K poller own ((keys.filterMap store).length + 1) []) c' fun results c'' =>
        results.Perm ((keys.filterMap store).map c.memc.itemOf) ∧
          ∀ conn ∈ c''.conns, conn.cursorActive = 0 ∧ conn.unread pending = [] := by
  have hG' : ServesGets A c.memc.getView store := ⟨hG.key, hG.plain, hG.get, hG.getkq, hG.noop⟩
  refine (mgetByKeyReal_returns hS hG' (fun hb => ⟨hreplicas hb, rfl⟩) hfit hc.each).mono
    fun rc c' h hok => ?_
  obtain ⟨asked, hc', hperm⟩ := h hok
  obtain ⟨left, hfetching, hleft⟩ := hc'.fetching
  have hhits := hperm.filterMap store
  rw [← hleft] at hhits
  have htimeout' : c'.memc.pollTimeout ≠ 0 := by
    rw [show c'.memc.pollTimeout = c'.memc.getView.pollTimeout from rfl, hc'.view]
    exact htimeout
  have hitem : c'.memc.itemOf = c.memc.itemOf := by
    rw [show c'.memc.itemOf = c'.memc.getView.itemOf from rfl, hc'.view]
    rfl
  refine (fetchAll_fetching hS hT.fills htimeout' hpoll own hfetching
    (Nat.lt_succ_of_le (Nat.le_of_eq hhits.length_eq)) []).mono fun results d hd => ⟨?_, fun conn hconn => ?_⟩
  · rw [nil_append, hitem] at hd
    exact hd.1.trans (hhits.map _)
  · exact ⟨(hd.2 conn hconn).cursorActive, (hd.2 conn hconn).unread⟩

/-! ## A server to try it on -/

theorem answering_accepts (size : Nat) (reply : Request → Bytes) :
    Accepts (answering size reply) id fun r cells => cells = answerCells r.id (reply r) where
  send cells out _ := by
    refine ⟨(requestsOf out).map fun r => answerCells r.id (reply r), _, rfl, ?_, ?_⟩
    · rw [flatMap_def]
      rfl
    · exact forall₂_map_right_iff.mpr (forall₂_same.mpr fun _ _ => rfl)
  connect _ b _ := ⟨b, [], rfl, rfl⟩

theorem answering_trickles (size : Nat) (reply : Request → Bytes) : Trickles (answering size reply) id where
  recv cells cap hcap hne := .inl ((drip_delivers size).recv cells cap hcap hne)
  poll cells _ _ := ⟨cells, rfl, rfl⟩

theorem bytesOf_answerCells (id : Nat) (bytes : Bytes) : bytesOf (answerCells id bytes) = bytes := by
  simp [bytesOf, answerCells, Function.comp_def, zipIdx_map_fst]

/-- A server of the binary protocol that has the items of `store`. -/
def storeReply (store : Bytes → Option Hit) (r : Request) : Bytes :=
  let header := ofBytes r.bytes
  if header.opcode = Opcode.noop.toByte then
    { opcode := header.opcode, opaque_ := header.opaque_ : Packet }.bytes
  else
    match store (r.bytes.drop headerLength) with
    | none => []
    | some hit => (getResponseHandler header hit).bytes

theorem requestHeader_ofBytes (opcode : Opcode) (requestId : UInt32) (keylen extlen bodylen cas : Nat)
    (rest : Bytes) :
    let bytes := requestHeader opcode requestId keylen extlen bodylen cas ++ rest
    (ofBytes bytes).opcode = opcode.toByte ∧ (ofBytes bytes).opaque_.length = 4 ∧
      bytes.drop headerLength = rest := by
  simp [requestHeader, ofBytes, toBigEndian, slice, headerLength, range_succ]

theorem storeReply_servesGets (hb : memc.flags.binaryProtocol = true) (hns : memc.keyNamespace = [])
    (hkey : ∀ key hit, store key = some hit → hit.key = key)
    (hlen : ∀ key hit, store key = some hit → hit.body.length + hit.key.length + 4 < 2 ^ 32) :
    ServesGets (fun r cells => cells = answerCells r.id (storeReply store r)) memc store where
  key key hit h := by rw [hns, hkey key hit h, nil_append]
  plain _ _ hb' := absurd hb' (by simp [hb])
  get _ _ _ hb' := absurd hb' (by simp [hb])
  getkq id requestId key cells _ h := by
    subst h
    have hflat : (getRequest memc.keyNamespace key .getkq requestId).flatten =
        requestHeader .getkq requestId key.length 0 key.length 0 ++ key := by
      simp [getRequest, hns]
    obtain ⟨hopcode, hopaque, hdrop⟩ :=
      requestHeader_ofBytes .getkq requestId key.length 0 key.length 0 key
    rw [hflat]
    simp only [storeReply, hopcode, hdrop]
    rw [if_neg (by decide)]
    cases hstore : store key with
    | none => rfl
    | some hit =>
      dsimp only
      rw [bytesOf_answerCells, HitBytes, if_pos hb]
      exact ⟨hlen key hit hstore, _, hopcode, hopaque, rfl⟩
  noop id requestId cells _ h := by
    subst h
    obtain ⟨hopcode, hopaque, -⟩ := requestHeader_ofBytes .noop requestId 0 0 0 0 []
    rw [append_nil] at hopcode hopaque
    simp only [storeReply]
    rw [if_pos hopcode, bytesOf_answerCells, EndBytes, if_pos hb]
    exact ⟨_, ⟨Nat.two_pow_pos _, Nat.two_pow_pos _, Nat.two_pow_pos _, hopaque, Nat.two_pow_pos _⟩, rfl,
      hopcode, rfl, rfl⟩

/-- Two hosts and the binary protocol, with a connection to each. -/
def binaryPair : Client (List InByte) where
  memc := { servers := [.ofServer (Memcached.letterHost 'a'), .ofServer (Memcached.letterHost 'b')]
            flags.binaryProtocol := true }
  conns := [{ net := [] }, { net := [] }]

/-- The server has one item. -/
def oneItem (key : Bytes) : Option Hit :=
  if key = [107] then some ⟨[107], [1, 2], 5, 42, by decide, by decide⟩ else none

theorem mget_fetches_every_hit_binary :
    let K := answering 2 (storeReply oneItem)
    Always (memcachedMget K Memcached.fnvHashes (fun _ => ⟨0, 0⟩) [[107], [108]]) binaryPair fun rc c' =>
      rc.isSuccess = true →
        Ensures (fetchAll K (fun _ ks => .ok ks) (fun _ => ({}, 0)) 2 []) c' fun results c'' =>
          results.Perm [{ itemKey := [107], itemFlags := 5, itemCas := 42, value := [1, 2] }] ∧
            ∀ conn ∈ c''.conns, conn.cursorActive = 0 ∧ conn.unread id = [] := by
  have hidle : binaryPair.Idle id := by
    refine ⟨rfl, rfl, fun conn hconn => ?_⟩
    obtain rfl : conn = { net := [] } := by simpa [binaryPair] using hconn
    exact ⟨rfl, rfl, rfl, rfl⟩
  have hitem {key : Bytes} {hit : Hit} (h : oneItem key = some hit) :
      key = [107] ∧ hit = ⟨[107], [1, 2], 5, 42, by decide, by decide⟩ := by
    unfold oneItem at h
    split at h
    · exact ⟨‹_›, (Option.some.inj h).symm⟩
    · cases h
  have hserves := @storeReply_servesGets binaryPair.memc oneItem rfl rfl
    (fun key hit h => by rw [(hitem h).2, (hitem h).1]) fun key hit h => by
      rw [(hitem h).2]
      decide
  have hpoll : Polls (κ := List InByte) fun _ ks => .ok ks := by
    intro _ ks hne
    obtain ⟨k, hk⟩ := exists_mem_of_ne_nil ks hne
    exact ⟨ks, rfl, k, hk, hk⟩
  exact mget_fetches_every_hit _ (answering_accepts 2 _) (answering_trickles 2 _) _ _ hpoll _ binaryPair
    hidle hserves (by decide) (fun _ => rfl) [[107], [108]] (by unfold Memcached.KeysFit; decide)

/-- Behind the longest namespace a key of 250 bytes makes a `VALUE` line that does not fit into the line
buffer: the multi-get succeeds, and the item the server returned is not fetched. -/
theorem mget_loses_hit :
    let name := List.replicate 127 (110 : UInt8) ++ List.replicate 250 107
    let reply (_ : Request) := ascii "VALUE " ++ name ++ ascii " 0 1\r\nx\r\nEND\r\n"
    let c : Client (List InByte) :=
      { memc := { servers := [.ofServer (Memcached.letterHost 'a')]
                  namespace_ := some (List.replicate 127 110) }
        conns := [{ net := [] }] }
    (c.memc.setNamespace c.memc.namespace_).1 = .success ∧
    Ensures (memcachedMget (answering 99 reply) Memcached.fnvHashes (fun _ => ⟨0, 0⟩) [List.replicate 250 107])
      c fun rc c' => rc = .success ∧
        Ensures (memcachedFetchResult (answering 99 reply) (fun _ ks => .ok ks) {} 0) c' fun r _ =>
          r.1 = none ∧ r.2.1 = .notFound := by
  decide +kernel

end LM
