import LibMemcached.Proof.Answers
import LibMemcached.Proof.BinaryInput

/-!
# Storage requests between client and server

The storage requests that `memcached_send_binary` writes, read by the handlers of the server library:
`binary_storage_round_trip`. What a verb asks for is `Verb.invocation`; the text protocol has the same
meaning (`LibMemcached.Proof.TextStorage`).
-/

namespace LM

open List RequestHeader

variable {σ : Type} {I : Interface σ}

/-- The call that a storage function asks the server for. `cas` is a `replace`. -/
def Verb.invocation (verb : Verb) (ns : Bytes) (item : Item) : Invocation :=
  let key := ns ++ item.key
  let exptime := (item.expiration % 2 ^ 32).toNat
  match verb with
  | set => .set key item.value item.flags.toNat exptime item.cas.toNat
  | add => .add key item.value item.flags.toNat exptime
  | replace | cas => .replace key item.value item.flags.toNat exptime item.cas.toNat
  | append => .append key item.value item.cas.toNat
  | prepend => .prepend key item.value item.cas.toNat

/-! ## Fields of a packet -/

section

variable (opcode : Opcode) (requestId : UInt32) (keylen extlen bodylen cas : Nat)

@[simp] theorem length_requestHeader :
    (requestHeader opcode requestId keylen extlen bodylen cas).length = 24 := rfl

theorem ofBytes_requestHeader (rest : Bytes) :
    ofBytes (requestHeader opcode requestId keylen extlen bodylen cas ++ rest) =
      { magic := binaryReq, opcode := opcode.toByte, keylen := keylen % 2 ^ 16
        bodylen := bodylen % 2 ^ 32, opaque_ := toBigEndian 2 requestId.toNat ++ [0, 0]
        cas := cas % 2 ^ 64 } := by
  have h2 := bigEndian_toBigEndian 2 keylen
  have h4 := bigEndian_toBigEndian 4 bodylen
  have h8 := bigEndian_toBigEndian 8 cas
  rw [show 256 ^ 2 = 2 ^ 16 by decide] at h2
  rw [show 256 ^ 4 = 2 ^ 32 by decide] at h4
  rw [show 256 ^ 8 = 2 ^ 64 by decide] at h8
  rw [← h2, ← h4, ← h8]
  rfl

end

/-- The extras of a storage request. -/
def storageExtras (item : Item) (verb : Verb) : Bytes :=
  if verb = .append ∨ verb = .prepend then []
  else toBigEndian 4 item.flags.toNat ++ toBigEndian 4 (item.expiration % 2 ^ 32).toNat

theorem binaryStorage_flatten (ns : Bytes) (item : Item) (verb : Verb) (opcode : Opcode)
    (requestId : UInt32) : (binaryStorage ns item verb opcode requestId).flatten =
      requestHeader opcode requestId (ns ++ item.key).length (storageExtras item verb).length
        ((ns ++ item.key).length + item.value.length + (storageExtras item verb).length)
        item.cas.toNat ++ (storageExtras item verb ++ ((ns ++ item.key) ++ item.value)) := by
  simp only [binaryStorage, storageExtras, flatten_cons, flatten_nil, nil_append,
    append_nil, append_assoc, length_append, Nat.add_comm item.key.length]

section Fields

variable {opcode : Opcode} {requestId : UInt32} {cas : Nat} {extras key value stale packet : Bytes}
  (hpacket : packet = requestHeader opcode requestId key.length extras.length
    (key.length + value.length + extras.length) cas ++ (extras ++ (key ++ value)))
  (hk : key.length < 2 ^ 16) (hb : key.length + value.length + extras.length < 2 ^ 32)

include hpacket

theorem opcode_request : (ofBytes (packet ++ stale)).opcode = opcode.toByte := by
  rw [hpacket, append_assoc, ofBytes_requestHeader]

theorem cas_request (hc : cas < 2 ^ 64) : (ofBytes (packet ++ stale)).cas = cas := by
  rw [hpacket, append_assoc, ofBytes_requestHeader]
  exact Nat.mod_eq_of_lt hc

include hk in
theorem keylen_request : (ofBytes (packet ++ stale)).keylen = key.length := by
  rw [hpacket, append_assoc, ofBytes_requestHeader]
  exact Nat.mod_eq_of_lt hk

include hb in
theorem bodylen_request : (ofBytes (packet ++ stale)).bodylen = key.length + value.length + extras.length := by
  rw [hpacket, append_assoc, ofBytes_requestHeader]
  exact Nat.mod_eq_of_lt hb

include hb in
theorem complete_request : Complete packet := by
  have hl : packet.length = 24 + (key.length + value.length + extras.length) := by
    rw [hpacket]
    simp only [length_append, length_requestHeader]
    omega
  have hbody : (ofBytes (packet ++ [])).bodylen = _ := bodylen_request hpacket hb
  rw [append_nil] at hbody
  exact ⟨by rw [hl]; exact Nat.le_add_right _ _, by rw [total, hbody, hl, headerLength]⟩

include hk in
theorem storedKey_request : storedKey (packet ++ stale) extras.length = key := by
  rw [storedKey, keylen_request hpacket hk]
  have hmem : packet ++ stale = (requestHeader opcode requestId key.length extras.length
      (key.length + value.length + extras.length) cas ++ extras) ++ (key ++ (value ++ stale)) := by
    rw [hpacket]
    simp only [append_assoc]
  rw [hmem, show headerLength + extras.length = (requestHeader opcode requestId key.length extras.length
      (key.length + value.length + extras.length) cas ++ extras).length by
    rw [length_append, length_requestHeader, headerLength], slice_middle]

include hk hb in
theorem storedData_request : storedData (packet ++ stale) extras.length = value := by
  have hlen : (key.length + value.length + extras.length + 2 ^ 33 - key.length - extras.length) %
      2 ^ 32 = value.length := by omega
  rw [storedData, keylen_request hpacket hk, bodylen_request hpacket hb, hlen]
  have hmem : packet ++ stale = (requestHeader opcode requestId key.length extras.length
      (key.length + value.length + extras.length) cas ++ extras ++ key) ++ (value ++ stale) := by
    rw [hpacket]
    simp only [append_assoc]
  rw [hmem, show headerLength + extras.length + key.length = (requestHeader opcode requestId key.length
      extras.length (key.length + value.length + extras.length) cas ++ extras ++ key).length by
    rw [length_append, length_append, length_requestHeader, headerLength], slice_middle]

theorem storedExtras_request {a b : Bytes} (ha : a.length = 4) (hb : b.length = 4)
    (he : extras = a ++ b) :
    storedFlags (packet ++ stale) = bigEndian a ∧ storedExpiration (packet ++ stale) = bigEndian b := by
  subst he
  have hmem : packet ++ stale = requestHeader opcode requestId key.length (a ++ b).length
      (key.length + value.length + (a ++ b).length) cas ++ (a ++ (b ++ (key ++ value ++ stale))) := by
    rw [hpacket]
    simp only [append_assoc]
  rw [storedFlags, storedExpiration, hmem]
  generalize hh : requestHeader opcode requestId key.length (a ++ b).length
      (key.length + value.length + (a ++ b).length) cas = header
  have hl : header.length = 24 := by rw [← hh, length_requestHeader]
  constructor
  · rw [← hl, ← ha, slice_middle]
  · rw [← append_assoc, show 28 = (header ++ a).length by rw [length_append, hl, ha], ← hb,
      slice_middle]

end Fields

/-! ## Storage requests -/

theorem commandHandler_storage (verb : Verb) (ns : Bytes) (item : Item) (reply : Bool) (requestId : UInt32)
    (stale : Bytes) (s : Serving σ) (hk : (ns ++ item.key).length ≤ 250)
    (hv : (ns ++ item.key).length + item.value.length + (storageExtras item verb).length < 2 ^ 32) :
    let mem := (binaryStorage ns item verb (verb.comCode reply) requestId).flatten ++ stale
    ∃ opcode response, commandHandler (.v1 I) mem s =
      loudHandler I mem opcode (verb.invocation ns item) response s := by
  intro mem
  have hpacket := binaryStorage_flatten ns item verb (verb.comCode reply) requestId
  change ∃ opcode response, commandHandler (.v1 I) (_ ++ stale) s =
    loudHandler I (_ ++ stale) opcode (verb.invocation ns item) response s
  generalize (binaryStorage ns item verb (verb.comCode reply) requestId).flatten = packet at hpacket ⊢
  have hk' : (ns ++ item.key).length < 2 ^ 16 := by omega
  have hop : (ofBytes (packet ++ stale)).opcode = (verb.comCode reply).toByte :=
    opcode_request hpacket
  have hcas : (ofBytes (packet ++ stale)).cas = item.cas.toNat :=
    cas_request hpacket item.cas.toNat_lt
  have hkey (n : Nat) (hn : (storageExtras item verb).length = n) :
      storedKey (packet ++ stale) n = ns ++ item.key := hn ▸ storedKey_request hpacket hk'
  have hdata (n : Nat) (hn : (storageExtras item verb).length = n) :
      storedData (packet ++ stale) n = item.value := hn ▸ storedData_request hpacket hk' hv
  have hextras (he : storageExtras item verb = toBigEndian 4 item.flags.toNat ++
      toBigEndian 4 (item.expiration % 2 ^ 32).toNat) :
      storedFlags (packet ++ stale) = item.flags.toNat ∧
        storedExpiration (packet ++ stale) = (item.expiration % 2 ^ 32).toNat := by
    obtain ⟨h1, h2⟩ : storedFlags (packet ++ stale) = _ ∧ storedExpiration (packet ++ stale) = _ :=
      storedExtras_request hpacket (length_toBigEndian 4) (length_toBigEndian 4) he
    rw [bigEndian_toBigEndian_of_lt item.flags.toNat_lt] at h1
    rw [bigEndian_toBigEndian_of_lt (by omega)] at h2
    exact ⟨h1, h2⟩
  rw [commandHandler, hop]
  cases verb with
  | set =>
    obtain ⟨h1, h2⟩ := hextras rfl
    have h : ∃ opcode response, setCommandHandler I (packet ++ stale) s =
        loudHandler I (packet ++ stale) opcode (Verb.set.invocation ns item) response s := by
      rw [setCommandHandler, hkey 8 rfl, hdata 8 rfl, h1, h2, hcas]
      exact ⟨_, _, rfl⟩
    cases reply <;> exact h
  | add =>
    obtain ⟨h1, h2⟩ := hextras rfl
    have h : ∃ opcode response, addCommandHandler I (packet ++ stale) s =
        loudHandler I (packet ++ stale) opcode (Verb.add.invocation ns item) response s := by
      rw [addCommandHandler, hkey 8 rfl, hdata 8 rfl, h1, h2]
      exact ⟨_, _, rfl⟩
    cases reply <;> exact h
  | replace | cas =>
    obtain ⟨h1, h2⟩ := hextras rfl
    have h : ∃ opcode response, replaceCommandHandler I (packet ++ stale) s =
        loudHandler I (packet ++ stale) opcode (Verb.replace.invocation ns item) response s := by
      rw [replaceCommandHandler, hkey 8 rfl, hdata 8 rfl, h1, h2, hcas]
      exact ⟨_, _, rfl⟩
    cases reply <;> exact h
  | append =>
    have h : ∃ opcode response, appendCommandHandler I (packet ++ stale) s =
        loudHandler I (packet ++ stale) opcode (Verb.append.invocation ns item) response s := by
      rw [appendCommandHandler, hkey 0 rfl, hdata 0 rfl, hcas]
      exact ⟨_, _, rfl⟩
    cases reply <;> exact h
  | prepend =>
    have h : ∃ opcode response, prependCommandHandler I (packet ++ stale) s =
        loudHandler I (packet ++ stale) opcode (Verb.prepend.invocation ns item) response s := by
      rw [prependCommandHandler, hkey 0 rfl, hdata 0 rfl, hcas]
      exact ⟨_, _, rfl⟩
    cases reply <;> exact h

theorem loudHandler_called {mem : Bytes} {opcode : Opcode} {call : Invocation} {response : Answer → Packet}
    {s : Serving σ} (hp : I.present call.callback) :
    (loudHandler I mem opcode call response s).1 = (I.answer s.app call).1.status ∧
      (loudHandler I mem opcode call response s).2.calls = s.calls ++ [call] := by
  rw [loudHandler, callHandler, if_pos hp]
  dsimp only
  refine ⟨rfl, ?_⟩
  split <;> rfl

theorem reportStatus_keeps (mem : Bytes) (h : Handled σ) : (reportStatus mem h).2.calls = h.2.calls ∧
      ((reportStatus mem h).1 = .success ∨ (reportStatus mem h).1 = h.1) := by
  rw [reportStatus]
  split
  · exact ⟨rfl, .inr rfl⟩
  · exact ⟨rfl, .inl rfl⟩

/-- A storage request in the binary protocol is one packet with nothing left over, whose handler calls
the callback of the verb with what was to be stored, and it is a quiet one exactly when no reply was
requested. The input is consumed unless the callback ends or pauses the connection. -/
theorem binary_storage_round_trip (I : Interface σ) (verb : Verb) (ns : Bytes) (item : Item)
    (reply : Bool) (requestId : UInt32) (stale : Bytes) (s : Serving σ)
    (hk : (ns ++ item.key).length ≤ 250)
    (hv : (ns ++ item.key).length + item.value.length + (storageExtras item verb).length < 2 ^ 32)
    (hp : I.present (verb.invocation ns item).callback) :
    let packet := (binaryStorage ns item verb (verb.comCode reply) requestId).flatten
    let w := binaryProcessData (executeCommand (.v1 I) none) (packet ++ stale) packet.length s
    let status := (I.answer s.app (verb.invocation ns item)).1.status
    nextPacket packet = some (packet, []) ∧ w.serving.executed = s.executed ++ [packet] ∧
      w.serving.calls = s.calls ++ [verb.invocation ns item] ∧
      (status ≠ .einternal → status ≠ .notSupported → w.event = .read ∧ w.length = 0) ∧
      (reporting (ofBytes packet).opcode = .quiet ↔ reply = false) := by
  intro packet w status
  have hpacket : packet = _ := binaryStorage_flatten ns item verb (verb.comCode reply) requestId
  have hc : Complete packet := complete_request hpacket hv
  have hop : (ofBytes (packet ++ [])).opcode = (verb.comCode reply).toByte :=
    opcode_request hpacket
  have hhead : packet.head? = some binaryReq := by rw [hpacket]; rfl
  obtain ⟨hserving, hread⟩ : w.serving = _ ∧ _ := binaryProcessData_single stale s hc hhead
  -- The handler is called in the state with the packet in the log.
  let s' : Serving σ := { s with
    executed := s.executed ++ [(packet ++ stale).take (ofBytes (packet ++ stale)).total] }
  obtain ⟨opcode, response, hhandler⟩ :=
    commandHandler_storage (I := I) verb ns item reply requestId stale s' hk hv
  have hexec : executeCommand (.v1 I) none (packet ++ stale) s = reportStatus (packet ++ stale)
      (loudHandler I (packet ++ stale) opcode (verb.invocation ns item) response s') := by
    rw [← hhandler]
    rfl
  obtain ⟨hstatus, hcalls⟩ : (loudHandler I (packet ++ stale) opcode (verb.invocation ns item) response
      s').1 = status ∧ _ = s.calls ++ _ := loudHandler_called hp
  obtain ⟨hkeep, hrv⟩ := reportStatus_keeps (packet ++ stale)
    (loudHandler I (packet ++ stale) opcode (verb.invocation ns item) response s')
  refine ⟨?_, ?_, ?_, fun h1 h2 => ?_, ?_⟩
  · have := nextPacket_append hc []
    rwa [append_nil] at this
  · rw [hserving, executeCommand_executed, hc.total_append, take_left]
  · rw [hserving, hexec, hkeep, hcalls]
  · rw [hexec] at hread
    rw [hstatus] at hrv
    rcases hrv with h | h
    · exact hread (by rw [h]; decide) (by rw [h]; decide)
    · exact hread (by rw [h]; exact h1) (by rw [h]; exact h2)
  · rw [append_nil] at hop
    rw [hop]
    cases verb <;> cases reply <;> decide

/-- `cas` without a reply, with a namespace. -/
theorem binary_storage_round_trip_cas :
    let item : Item := { key := [98], value := [13, 10], expiration := -1, flags := 7, cas := 9 }
    let packet := (binaryStorage [97] item .cas (Verb.comCode .cas false) 3).flatten
    let w := binaryProcessData (executeCommand (.v1 oneValue) none) (packet ++ []) packet.length
      { app := () }
    w.serving.calls = [.replace [97, 98] [13, 10] 7 (2 ^ 32 - 1) 9] := by
  intro item packet w
  exact (binary_storage_round_trip oneValue .cas [97] item false 3 [] { app := () } (by decide)
    (by decide) rfl).2.2.1

end LM
