import LibMemcached.Framework.Chunks
import LibMemcached.Impl.Commands
import LibMemcached.Proof.ClientWork
import LibMemcached.Proof.Encoding
import LibMemcached.Proof.Requests

/-!
# Binary requests do not depend on how they arrive

The stream a client sends is cut into packets by the lengths in their headers (`packetCutter`), and
the library is meant to execute them one by one, keep an unfinished one, and stop at a packet that
ends the connection: `executeStep`. `binaryLoop_consume` shows that the loop over the input buffer
does so, wherever it moves the packets, if no handler reads beyond its packet (`Contained`).

`memcached_protocol_client_work` then hands the same packets to the callbacks however `recv` cuts the
stream, if every `recv` completes a packet and every packet begins with the magic byte
(`requests_independent_of_cuts`). If a `recv` completes no packet, the pointer to what is left is not
set; and the magic byte is only looked at in front of each call.
-/

namespace LM

open List RequestHeader

variable {σ : Type} {extras : Nat} {I : Interface σ} {s : Serving σ} {service : Service σ}
  {packet data : Bytes}

/-! ## Handlers and their packet -/

/-- The number of bytes between the header and the key, for the commands whose handler reads a key. -/
def extrasLength (opcode : UInt8) : Option Nat :=
  match opcode with
  | 0x01 | 0x02 | 0x03 | 0x11 | 0x12 | 0x13 => some 8
  | 0x05 | 0x06 | 0x15 | 0x16 => some 20
  | 0x00 | 0x04 | 0x09 | 0x0c | 0x0d | 0x0e | 0x0f | 0x10 | 0x14 | 0x19 | 0x1a => some 0
  | _ => none

/-- Extras and key are inside the packet, so that the handler of version 1 stays in it. Handlers of
version 0 do so by contract. -/
def Contained (callbacks : Callbacks σ) (packet : Bytes) : Prop :=
  match callbacks with
  | .v0 _ => True
  | .v1 _ =>
    ∀ extras ∈ extrasLength (ofBytes packet).opcode,
      extras + (ofBytes packet).keylen ≤ (ofBytes packet).bodylen

instance (callbacks : Callbacks σ) (packet : Bytes) : Decidable (Contained callbacks packet) :=
  match callbacks with
  | .v0 _ => isTrue trivial
  | .v1 _ => inferInstanceAs (Decidable (∀ extras ∈ extrasLength (ofBytes packet).opcode,
      extras + (ofBytes packet).keylen ≤ (ofBytes packet).bodylen))

section Packet

variable {packet : Bytes} (hp : Complete packet) (more : Bytes)

theorem bodylen_lt (mem : Bytes) : (ofBytes mem).bodylen < 2 ^ 32 := by
  have h := bigEndian_lt (slice mem 8 4)
  have hl : (slice mem 8 4).length ≤ 4 := length_take_le _ _
  exact Nat.lt_of_lt_of_le h (Nat.pow_le_pow_right (by decide) hl)

include hp

theorem Complete.length_eq : packet.length = 24 + (ofBytes packet).bodylen :=
  hp.total.symm

section

variable (h : extras + (ofBytes packet).keylen ≤ (ofBytes packet).bodylen)
include h

theorem storedKey_append : storedKey (packet ++ more) extras = storedKey packet extras := by
  have hl := hp.length_eq
  rw [storedKey, storedKey, ofBytes_append hp.header,
    slice_append more (by rw [headerLength]; omega)]

theorem storedData_append : storedData (packet ++ more) extras = storedData packet extras := by
  have hl := hp.length_eq
  have hb := bodylen_lt packet
  rw [storedData, storedData, ofBytes_append hp.header]
  exact slice_append more (by rw [headerLength]; omega)

theorem extras_append {offset len : Nat} (ho : offset + len ≤ 24 + extras) :
    slice (packet ++ more) offset len = slice packet offset len :=
  slice_append more (by have hl := hp.length_eq; omega)

end

theorem flushTimeout_append :
    (if (ofBytes packet).bodylen = 4 then bigEndian (slice (packet ++ more) 24 4) else 0) =
      if (ofBytes packet).bodylen = 4 then bigEndian (slice packet 24 4) else 0 := by
  have hl := hp.length_eq
  split
  · rw [slice_append more (by omega)]
  · rfl

theorem positiveResponse_append (opcode : Opcode) (cas : UInt64) :
    positiveResponse (packet ++ more) opcode cas = positiveResponse packet opcode cas := by
  rw [positiveResponse, positiveResponse, ofBytes_append hp.header]

theorem valueResponse_append (opcode : Opcode) (a : Answer) :
    valueResponse (packet ++ more) opcode a = valueResponse packet opcode a := by
  rw [valueResponse, valueResponse, ofBytes_append hp.header]

theorem loudHandler_append (I : Interface σ) (opcode : Opcode) (call : Invocation)
    (response : Answer → Packet) :
    loudHandler I (packet ++ more) opcode call response = loudHandler I packet opcode call response := by
  funext s
  rw [loudHandler, loudHandler, ofBytes_append hp.header]

theorem comcodeV0V1Remap_append {handler : Interface σ → Bytes → Serving σ → Handled σ} (s : Serving σ)
    (hc : Contained (.v1 I) packet) (h : comcodeV0V1Remap (ofBytes packet).opcode = some handler) :
    handler I (packet ++ more) s = handler I packet s := by
  have hr := ofBytes_append hp.header more
  have hloud := loudHandler_append (σ := σ) hp more
  have hpos := positiveResponse_append hp more
  -- What a handler reads, by the length of its extras.
  have h0 (h : 0 + (ofBytes packet).keylen ≤ (ofBytes packet).bodylen) :
      storedKey (packet ++ more) 0 = storedKey packet 0 ∧
        storedData (packet ++ more) 0 = storedData packet 0 :=
    ⟨storedKey_append hp more h, storedData_append hp more h⟩
  have h8 (h : 8 + (ofBytes packet).keylen ≤ (ofBytes packet).bodylen) :
      storedKey (packet ++ more) 8 = storedKey packet 8 ∧
        storedData (packet ++ more) 8 = storedData packet 8 ∧
        storedFlags (packet ++ more) = storedFlags packet ∧
        storedExpiration (packet ++ more) = storedExpiration packet :=
    ⟨storedKey_append hp more h, storedData_append hp more h,
      congrArg bigEndian (extras_append hp more h (by decide)),
      congrArg bigEndian (extras_append hp more h (by decide))⟩
  have h20 (h : 20 + (ofBytes packet).keylen ≤
        (ofBytes packet).bodylen) :
      storedKey (packet ++ more) 20 = storedKey packet 20 ∧
        slice (packet ++ more) 24 8 = slice packet 24 8 ∧
        slice (packet ++ more) 32 8 = slice packet 32 8 ∧
        slice (packet ++ more) 40 4 = slice packet 40 4 :=
    ⟨storedKey_append hp more h, extras_append hp more h (by decide),
      extras_append hp more h (by decide), extras_append hp more h (by decide)⟩
  unfold Contained at hc
  unfold comcodeV0V1Remap at h
  split at h
  all_goals first
    | (obtain rfl := Option.some.inj h
       rename_i ho
       rw [ho] at hc
       first
        | (obtain ⟨e1, e2, e3, e4⟩ := h8 (hc 8 rfl)
           simp only [addCommandHandler, replaceCommandHandler, setCommandHandler, hloud, hpos, hr,
             e1, e2, e3, e4])
        | (obtain ⟨e1, e2, e3, e4⟩ := h20 (hc 20 rfl)
           simp only [incrementCommandHandler, decrementCommandHandler, hloud,
             valueResponse_append hp more, e1, e2, e3, e4])
        | (obtain ⟨e1, e2⟩ := h0 (hc 0 rfl)
           simp only [appendCommandHandler, prependCommandHandler, deleteCommandHandler,
             getCommandHandler, statCommandHandler, hloud, hpos, hr, e1, e2])
        | simp only [flushCommandHandler, noopCommandHandler, quitCommandHandler,
            versionCommandHandler, hloud, hpos, hr, flushTimeout_append hp more])
    | cases h

theorem executeCommand_append {callbacks : Callbacks σ} (unknown : Option (RawCallback σ))
    (s : Serving σ) (hc : Contained callbacks packet) :
    executeCommand callbacks unknown (packet ++ more) s = executeCommand callbacks unknown packet s := by
  have hr := ofBytes_append hp.header more
  have htake : (packet ++ more).take (ofBytes packet).total =
      packet.take (ofBytes packet).total := by
    rw [hp.total, take_left, take_length]
  have hraw (callback : RawCallback σ) (s : Serving σ) :
      s.raw callback (packet ++ more) = s.raw callback packet := by
    simp only [Serving.raw, hr, htake]
  have hcommand (s : Serving σ) :
      commandHandler callbacks (packet ++ more) s = commandHandler callbacks packet s := by
    cases callbacks with
    | v0 comcode => simp only [commandHandler, hr, hraw]
    | v1 I =>
      simp only [commandHandler, hr]
      cases h : comcodeV0V1Remap (σ := σ) (ofBytes packet).opcode with
      | none => rfl
      | some handler => exact comcodeV0V1Remap_append hp more s hc h
  have hunknown (h : Handled σ) :
      unknownHandler unknown (packet ++ more) h = unknownHandler unknown packet h := by
    simp only [unknownHandler, hraw]
  have hreport (h : Handled σ) : reportStatus (packet ++ more) h = reportStatus packet h := by
    simp only [reportStatus, errorResponse, hr]
  simp only [executeCommand, hr, htake, hcommand, hunknown, hreport]

end Packet

/-! ## Callbacks that do not pause -/

/-- No callback returns `NOT_SUPPORTED`. -/
structure Service.NeverPauses (service : Service σ) : Prop where
  callbacks :
    match service.callbacks with
    | .v0 comcode => ∀ opcode, ∀ callback ∈ comcode opcode, ∀ app packet,
      (callback app packet).1 ≠ .notSupported
    | .v1 I => ∀ app call, (I.answer app call).1.status ≠ .notSupported
  unknown : ∀ callback ∈ service.unknown, ∀ app packet, (callback app packet).1 ≠ .notSupported

theorem callHandler_ne_notSupported {call : Invocation} {handed positive : Answer → List Packet}
    (h : ∀ app call, (I.answer app call).1.status ≠ .notSupported) :
    (callHandler I call handed positive s).1 ≠ .notSupported := by
  rw [callHandler]
  split
  · exact h s.app call
  · exact (by decide : Status.unknownCommand ≠ .notSupported)

theorem getCommandHandler_ne_notSupported {mem : Bytes}
    (h : ∀ app call, (I.answer app call).1.status ≠ .notSupported) :
    (getCommandHandler I mem s).1 ≠ .notSupported := by
  have hcall : (callHandler I (.get (storedKey mem 0))
      (fun a => a.hits.map (getResponseHandler (.ofBytes mem))) (fun _ => []) s).1 ≠ .notSupported :=
    callHandler_ne_notSupported h
  simp only [getCommandHandler]
  split
  · exact (by decide : Status.success ≠ .notSupported)
  · exact hcall

theorem commandHandler_ne_notSupported (h : service.NeverPauses) (mem : Bytes) :
    (commandHandler service.callbacks mem s).1 ≠ .notSupported := by
  have hc := h.callbacks
  cases hcb : service.callbacks with
  | v0 comcode =>
    rw [hcb] at hc
    simp only [commandHandler]
    cases hop : comcode (ofBytes mem).opcode with
    | none => exact (by decide : Status.unknownCommand ≠ .notSupported)
    | some callback => exact hc _ callback hop s.app _
  | v1 I =>
    rw [hcb] at hc
    simp only [commandHandler]
    cases hop : comcodeV0V1Remap (σ := σ) (ofBytes mem).opcode with
    | none => exact (by decide : Status.unknownCommand ≠ .notSupported)
    | some handler =>
      unfold comcodeV0V1Remap at hop
      split at hop
      all_goals first
        | (obtain rfl := Option.some.inj hop
           first
            | exact callHandler_ne_notSupported hc
            | exact getCommandHandler_ne_notSupported hc
            | exact (by decide : Status.success ≠ .notSupported)
            | exact (by decide : Status.einternal ≠ .notSupported))
        | cases hop

theorem executeCommand_ne_notSupported (h : service.NeverPauses) (mem : Bytes) (s : Serving σ) :
    (executeCommand service.callbacks service.unknown mem s).1 ≠ .notSupported := by
  have hreport (r : Handled σ) (hr : r.1 ≠ .notSupported) :
      (reportStatus mem r).1 ≠ .notSupported := by
    rw [reportStatus]
    split
    · exact hr
    · exact (by decide : Status.success ≠ .notSupported)
  apply hreport
  cases hu : service.unknown with
  | none => exact commandHandler_ne_notSupported h mem
  | some callback =>
    simp only [unknownHandler]
    split
    · exact h.unknown callback hu _ _
    · exact commandHandler_ne_notSupported h mem

/-! ## The log of executed packets -/

theorem callHandler_executed (I : Interface σ) (call : Invocation)
    (handed positive : Answer → List Packet) (s : Serving σ) :
    (callHandler I call handed positive s).2.executed = s.executed := by
  rw [callHandler]
  split
  · dsimp only
    split <;> rfl
  · rfl

theorem commandHandler_executed (callbacks : Callbacks σ) (mem : Bytes) (s : Serving σ) :
    (commandHandler callbacks mem s).2.executed = s.executed := by
  cases callbacks with
  | v0 comcode =>
    simp only [commandHandler]
    cases comcode (ofBytes mem).opcode <;> rfl
  | v1 I =>
    simp only [commandHandler]
    cases hop : comcodeV0V1Remap (σ := σ) (ofBytes mem).opcode with
    | none => rfl
    | some handler =>
      unfold comcodeV0V1Remap at hop
      split at hop
      all_goals first
        | (obtain rfl := Option.some.inj hop
           first
            | exact callHandler_executed ..
            | (simp only [getCommandHandler]
               split <;> exact callHandler_executed ..)
            | (simp only [noopCommandHandler, quitCommandHandler]
               split <;> rfl)
            | (simp only [quitCommandHandler]
               split <;> split <;> rfl))
        | cases hop

theorem executeCommand_executed (callbacks : Callbacks σ) (unknown : Option (RawCallback σ))
    (mem : Bytes) (s : Serving σ) : (executeCommand callbacks unknown mem s).2.executed =
      s.executed ++ [mem.take (ofBytes mem).total] := by
  have hreport (h : Handled σ) : (reportStatus mem h).2.executed = h.2.executed := by
    rw [reportStatus]
    split <;> rfl
  rw [executeCommand, hreport]
  cases unknown with
  | none => exact commandHandler_executed ..
  | some callback =>
    simp only [unknownHandler]
    split <;> exact commandHandler_executed ..

/-! ## The stream of packets -/

/-- A packet at the beginning of the data, if it is complete. -/
def nextPacket (data : Bytes) : Option (Bytes × Bytes) :=
  let total := (ofBytes data).total
  if headerLength ≤ data.length ∧ total ≤ data.length then some (data.take total, data.drop total)
  else none

theorem nextPacket_append (hp : Complete packet) (rest : Bytes) :
    nextPacket (packet ++ rest) = some (packet, rest) := by
  rw [nextPacket, hp.total_append, take_left, drop_left,
    if_pos ⟨by rw [length_append]; exact Nat.le_add_right_of_le hp.header, by simp⟩]

theorem eq_append_of_nextPacket {rest : Bytes} (h : nextPacket data = some (packet, rest)) :
    Complete packet ∧ data = packet ++ rest := by
  rw [nextPacket] at h
  split at h
  · rename_i hl
    obtain ⟨rfl, rfl⟩ := Prod.mk.inj (Option.some.inj h)
    have h24 : headerLength ≤ (data.take (ofBytes data).total).length := by
      rw [length_take, Nat.min_eq_left hl.2]
      exact Nat.le_add_right _ _
    have hr : ofBytes data =
        ofBytes (data.take (ofBytes data).total) := by
      rw [← ofBytes_append h24 (data.drop (ofBytes data).total),
        take_append_drop]
    exact ⟨⟨h24, by rw [← hr, length_take, Nat.min_eq_left hl.2]⟩, (take_append_drop _ _).symm⟩
  · cases h

/-- The packets of a stream. -/
def packetCutter : Cutter UInt8 Bytes where
  next := nextPacket
  shorter h := by
    obtain ⟨hp, rfl⟩ := eq_append_of_nextPacket h
    rw [length_append]
    exact Nat.lt_add_of_pos_left hp.length_pos
  stable more h := by
    obtain ⟨hp, rfl⟩ := eq_append_of_nextPacket h
    rw [append_assoc, nextPacket_append hp]

/-- A packet is executed; the status `EINTERNAL` ends the connection. -/
def executeStep (service : Service σ) (s : Serving σ) (packet : Bytes) : Bool × Serving σ :=
  let h := executeCommand service.callbacks service.unknown packet s
  (h.1 = .einternal, h.2)

/-- No handler reads beyond a packet of the data. -/
def AllContained (service : Service σ) (data : Bytes) : Prop :=
  ∀ suffix ∈ packetCutter.suffixes data, ∀ p ∈ nextPacket suffix, Contained service.callbacks p.1

/-- What the loop makes of the data at its header: it is at the end of the stream, or `endptr` points
to what is left. -/
structure Takes (w : Worked σ) (c : Consumed UInt8 (Serving σ)) : Prop where
  serving : w.serving = c.state
  event : w.event = if c.ended then .error else .read
  length : c.ended = false → w.length = c.tail.length
  left : c.ended = false → ∃ endptr, w.endptr = some endptr ∧ slice w.buffer endptr w.length = c.tail

section Loop

variable {service : Service σ}

theorem binaryLoop_consume (hs : service.NeverPauses) (fuel : Nat) (data buffer junk : Bytes)
    (header : Nat) (endptr : Option Nat) (s : Serving σ) (hf : data.length ≤ fuel)
    (hc : AllContained service data) (hb : buffer.drop header = data ++ junk)
    (hend : endptr = some header ∨ (nextPacket data).isSome) :
    Takes (binaryLoop (executeCommand service.callbacks service.unknown) fuel buffer header
      data.length endptr s) (packetCutter.consume (executeStep service) data s) := by
  induction fuel generalizing data buffer junk header endptr s with
  | zero =>
    obtain rfl : data = [] := length_eq_zero_iff.mp (Nat.le_zero.mp hf)
    obtain rfl := hend.resolve_right (by decide)
    exact ⟨rfl, rfl, fun _ => rfl, fun _ => ⟨header, rfl, rfl⟩⟩
  | succ fuel ih =>
    cases hn : nextPacket data with
    | none =>
      rw [hn] at hend
      obtain rfl := hend.resolve_right (by decide)
      rw [Cutter.consume_of_none s hn]
      have hguard : ¬(headerLength ≤ data.length ∧
          (ofBytes (data ++ junk)).total ≤ data.length) := by
        rintro ⟨h1, h2⟩
        rw [ofBytes_append h1] at h2
        rw [nextPacket, if_pos ⟨h1, h2⟩] at hn
        cases hn
      rw [binaryLoop, hb, if_neg hguard]
      exact ⟨rfl, rfl, fun _ => rfl, fun _ => ⟨header, rfl, by rw [slice, hb, take_left]⟩⟩
    | some p =>
      obtain ⟨packet, rest⟩ := p
      have hnext : packetCutter.next data = some (packet, rest) := hn
      obtain ⟨hp, rfl⟩ := eq_append_of_nextPacket hn
      have hlocal := executeCommand_append hp (rest ++ junk) service.unknown s
        (hc _ (Cutter.mem_suffixes_self _) _ hn)
      have hc' : AllContained service rest := fun suffix h =>
        hc suffix (by rw [Cutter.suffixes_of_some hnext]; exact mem_cons_of_mem _ h)
      rw [append_assoc] at hb
      rw [Cutter.consume_of_some s hnext]
      by_cases he : (executeCommand service.callbacks service.unknown packet s).1 = .einternal
      · rw [length_append, binaryLoop_end fuel endptr hp hb (hlocal.trans (Prod.ext he rfl)),
          if_pos (by simpa [executeStep] using he)]
        exact ⟨rfl, rfl, by simp, by simp⟩
      · obtain ⟨buffer', header', junk', hb', hloop⟩ := binaryLoop_step fuel endptr hp hb
          (hlocal : executeCommand _ _ _ s = (_, _)) he (executeCommand_ne_notSupported hs _ _)
        have hlen : rest.length ≤ fuel := by
          have := hp.length_pos
          rw [length_append] at hf
          omega
        rw [length_append, hloop, if_neg (by simpa [executeStep] using he)]
        exact ih rest buffer' junk' header' _ _ hlen hc' hb' (.inl rfl)

theorem receive_consume (hs : service.NeverPauses) {c : ServerClient σ} {recv : Recv}
    (hw : c.work = none ∨ c.work = some .binary)
    (hm : (c.inputBuffer ++ recv.data).head? = some binaryReq)
    (hn : (nextPacket (c.inputBuffer ++ recv.data)).isSome)
    (hc : AllContained service (c.inputBuffer ++ recv.data)) :
    let consumed := packetCutter.consume (executeStep service) (c.inputBuffer ++ recv.data) c.serving
    receive service recv c = (if consumed.ended then .error else .read,
      { work := some .binary, inputBuffer := consumed.tail, serving := consumed.state }) := by
  intro consumed
  have hlen : recv.data.length + c.inputBuffer.length = (c.inputBuffer ++ recv.data).length := by
    rw [length_append, Nat.add_comm]
  have hmagic : (filledBuffer c.inputBuffer recv).getD 0 0 = binaryReq := by
    obtain ⟨tail, ht⟩ := List.head?_eq_some_iff.mp hm
    rw [filledBuffer, ht]
    rfl
  have hwork : callWork service c (filledBuffer c.inputBuffer recv)
      (c.inputBuffer ++ recv.data).length =
      (some .binary, binaryProcessData (executeCommand service.callbacks service.unknown)
        (filledBuffer c.inputBuffer recv) (c.inputBuffer ++ recv.data).length c.serving) := by
    rcases hw with h | h
    · simp only [callWork, h, determineProtocol, if_pos hmagic]
    · simp only [callWork, h]
  have htakes := binaryLoop_consume hs _ (c.inputBuffer ++ recv.data)
    (filledBuffer c.inputBuffer recv) _ 0 none c.serving (Nat.le_refl _) hc rfl (.inr hn)
  rw [receive, hlen, hwork, binaryProcessData, if_neg (not_not_intro hmagic)]
  generalize binaryLoop _ _ _ _ _ _ _ = w at htakes
  cases he : consumed.ended with
  | true =>
    have hev : w.event = .error := by rw [htakes.event]; exact if_pos he
    have htail : consumed.tail = [] := Cutter.consume_ended he
    simp only [hev, htakes.serving, htail, if_pos]
    rfl
  | false =>
    have hev : w.event = .read := by rw [htakes.event]; exact if_neg (by rw [show Consumed.ended _ = false from he]; decide)
    obtain ⟨endptr, hend, hslice⟩ := htakes.left he
    have hleft : (if w.length = 0 then [] else w.leftover recv.wild) = consumed.tail := by
      rw [Worked.leftover, hend]
      split
      · rename_i h0
        rw [htakes.length he] at h0
        exact (length_eq_zero_iff.mp h0).symm
      · exact hslice
    simp only [hev, htakes.serving, hleft]
    rfl

end Loop

/-! ## Independence of the cuts -/

/-- Every packet of a stream, and what is left behind the last one, begins with the magic byte. -/
def MagicThroughout (stream : Bytes) : Prop :=
  ∀ suffix ∈ packetCutter.suffixes stream, suffix ≠ [] → suffix.head? = some binaryReq

/-- A `recv` completes a packet, as long as the connection is not ended. -/
def Recv.Completes (state : Event × ServerClient σ) (recv : Recv) : Prop :=
  state.1 = .read → (nextPacket (state.2.inputBuffer ++ recv.data)).isSome

section Cuts

variable {service : Service σ}

theorem AllContained.left {more : Bytes} (h : AllContained service (data ++ more)) :
    AllContained service data := fun _ hs p hp =>
  h _ (Cutter.append_mem_suffixes more hs) (p.1, p.2 ++ more) (packetCutter.stable more hp)

/-- The run over the results of `recv` is the execution of the stream they make up. -/
theorem receiveNext_consume (hs : service.NeverPauses) (recvs : List Recv) (c : ServerClient σ)
    (hw : c.work = none ∨ c.work = some .binary) (hkept : nextPacket c.inputBuffer = none)
    (hm : MagicThroughout (c.inputBuffer ++ (recvs.map (·.data)).flatten))
    (hc : AllContained service (c.inputBuffer ++ (recvs.map (·.data)).flatten))
    (hg : Guarded (receiveNext service) Recv.Completes (.read, c) recvs) :
    let consumed := packetCutter.consume (executeStep service)
      (c.inputBuffer ++ (recvs.map (·.data)).flatten) c.serving
    let final := runFrom (receiveNext service) (.read, c) recvs
    final.1 = (if consumed.ended then .error else .read) ∧
      final.2.inputBuffer = consumed.tail ∧ final.2.serving = consumed.state := by
  induction recvs generalizing c with
  | nil =>
    have hnone : packetCutter.next c.inputBuffer = none := hkept
    simp only [map_nil, flatten_nil, append_nil, Cutter.consume_of_none _ hnone]
    exact ⟨rfl, rfl, rfl⟩
  | cons r recvs ih =>
    rw [map_cons, flatten_cons, ← append_assoc] at hm hc ⊢
    have hn := hg.1 rfl
    -- The first bytes are magic, since some are there.
    have hhead : (c.inputBuffer ++ r.data).head? = some binaryReq := by
      cases hd : c.inputBuffer ++ r.data with
      | nil => rw [show c.inputBuffer ++ r.data = [] from hd] at hn; cases hn
      | cons b data =>
        rw [hd] at hm
        exact hm (b :: data ++ _) (Cutter.mem_suffixes_self _) (cons_ne_nil _ _)
    have hrecv := receive_consume hs hw hhead hn hc.left
    have hstep : receiveNext service (.read, c) r = _ := hrecv
    rw [runFrom_cons, hstep, Cutter.consume_append]
    cases he : (packetCutter.consume (executeStep service) (c.inputBuffer ++ r.data) c.serving).ended with
    | true =>
      rw [if_pos rfl, runFrom_ended (by decide), Cutter.feed, if_pos he]
      exact ⟨(if_pos he).symm, rfl, rfl⟩
    | false =>
      rw [if_neg Bool.false_ne_true, Cutter.feed, if_neg (by rw [he]; decide)]
      have hg' := hg.2
      rw [hstep, he, if_neg Bool.false_ne_true] at hg'
      refine ih _ (.inr rfl) (Cutter.consume_tail he) ?_ ?_ hg'
      · exact fun suffix hsuffix => hm suffix (Cutter.suffixes_tail_subset he hsuffix)
      · exact fun suffix hsuffix => hc suffix (Cutter.suffixes_tail_subset he hsuffix)

/-- No packet is executed that does not begin with the magic byte. -/
theorem executed_magic {stream : Bytes} (hm : MagicThroughout stream) (app : σ) :
    ∀ packet ∈ (packetCutter.consume (executeStep service) stream { app := app }).state.executed,
      packet.head? = some binaryReq := by
  refine Cutter.consume_invariant
    (P := fun s : Serving σ => ∀ packet ∈ s.executed, packet.head? = some binaryReq)
    (fun _ h => absurd h not_mem_nil) ?_
  intro suffix hsuffix packet rest hn s hinv q hq
  obtain ⟨hp, rfl⟩ := eq_append_of_nextPacket hn
  have hhead := hm _ hsuffix (append_ne_nil_of_left_ne_nil (ne_nil_of_length_pos hp.length_pos) _)
  rw [executeStep, executeCommand_executed, hp.total, take_length] at hq
  rcases mem_append.mp hq with h | h
  · exact hinv q h
  · obtain rfl := mem_singleton.mp h
    rwa [List.head?_append_of_ne_nil _ (ne_nil_of_length_pos hp.length_pos)] at hhead

/-- Two ways to cut a stream of packets into results of `recv`, each of which completes a packet:
the same packets are executed, all with the magic byte, the callbacks see the same and leave the same
state, the same tail is kept, and the connection ends at the same packet if it does. -/
theorem requests_independent_of_cuts (hs : service.NeverPauses) (app : σ) (stream : Bytes)
    (hm : MagicThroughout stream) (hc : AllContained service stream) (recvs recvs' : List Recv)
    (hcut : (recvs.map (·.data)).flatten = stream) (hcut' : (recvs'.map (·.data)).flatten = stream)
    (hg : Guarded (receiveNext service) Recv.Completes (.read, { serving := { app := app } }) recvs)
    (hg' : Guarded (receiveNext service) Recv.Completes (.read, { serving := { app := app } }) recvs') :
    let final := serve service (recvs.map .data) { serving := { app := app } }
    let final' := serve service (recvs'.map .data) { serving := { app := app } }
    final.1 = final'.1 ∧ final.2.inputBuffer = final'.2.inputBuffer ∧
      final.2.serving = final'.2.serving ∧
      ∀ packet ∈ final.2.serving.executed, packet.head? = some binaryReq := by
  have run (recvs : List Recv) (hcut : (recvs.map (·.data)).flatten = stream)
      (hg : Guarded (receiveNext service) Recv.Completes (.read, { serving := { app := app } }) recvs) :=
    receiveNext_consume hs recvs { serving := { app := app } } (.inl rfl) packetCutter.next_nil
      (by rw [hcut]; exact hm) (by rw [hcut]; exact hc) hg
  obtain ⟨h1, h2, h3⟩ := run recvs hcut hg
  obtain ⟨h1', h2', h3'⟩ := run recvs' hcut' hg'
  simp only [hcut, hcut', nil_append] at h1 h2 h3 h1' h2' h3'
  simp only [serve_data]
  refine ⟨h1.trans h1'.symm, h2.trans h2'.symm, h3.trans h3'.symm, ?_⟩
  rw [h3]
  exact executed_magic hm app

end Cuts

/-- An application whose callbacks all succeed. -/
def agreeable : Service Unit where
  callbacks := .v1 { present := fun _ => true, answer := fun app _ => ({ status := .success }, app) }

theorem agreeable_neverPauses : agreeable.NeverPauses where
  callbacks _ _ := (by decide : Status.success ≠ .notSupported)
  unknown _ h := nomatch h

/-- The events, the executed packets and the callbacks of a run on a new connection. The buffer holds
zeros, and so does the place a pointer points to that is not set. -/
def runOn (cuts : List Bytes) : Event × List Bytes × List Invocation :=
  let recvs := cuts.map fun data => ⟨data, List.replicate 100 0, fun _ => 0⟩
  let final := serve agreeable (recvs.map .data) { serving := { app := () } }
  (final.1, final.2.serving.executed, final.2.serving.calls)

/-- Two `NOOP` packets, at once and with a cut in the second one. -/
theorem requests_independent_of_cuts_noops :
    let p := requestHeader .noop 1 0 0 0 0
    runOn [p ++ p] = runOn [p ++ p.take 3, p.drop 3] := by
  intro p
  have h := requests_independent_of_cuts agreeable_neverPauses () (p ++ p)
    (by unfold MagicThroughout; decide +kernel) (by unfold AllContained; decide +kernel)
    [⟨p ++ p, List.replicate 100 0, fun _ => 0⟩]
    [⟨p ++ p.take 3, List.replicate 100 0, fun _ => 0⟩, ⟨p.drop 3, List.replicate 100 0, fun _ => 0⟩]
    (by decide +kernel) (by decide +kernel)
    ⟨fun _ => by decide +kernel, trivial⟩
    ⟨fun _ => by decide +kernel, fun _ => by decide +kernel, trivial⟩
  obtain ⟨h1, -, h3, -⟩ := h
  simp only [map_cons, map_nil] at h1 h3
  simp only [runOn, map_cons, map_nil, h1, h3]

/-- Where the cuts matter. A `recv` that completes no packet leaves the pointer to the rest unset, so
the second half of a packet follows arbitrary bytes. A packet without the magic byte is executed if it
is not the first one of a `recv`. A key that is not inside its packet is read from what follows it in
the buffer. -/
theorem cuts_change_requests :
    let noop := requestHeader .noop 1 0 0 0 0
    let noMagic := noop.set 0 0
    let noKey := requestHeader .getk 1 1 0 0 0
    (runOn [noop] = (.read, [noop], [.noop]) ∧
        runOn [noop.take 10, noop.drop 10] = (.error, [], [])) ∧
      (runOn [noop ++ noMagic] = (.read, [noop, noMagic], [.noop, .noop]) ∧
        runOn [noop, noMagic] = (.error, [noop], [.noop])) ∧
      (runOn [noKey ++ noop] = (.read, [noKey, noop], [.get [0x80], .noop]) ∧
        runOn [noKey, noop] = (.read, [noKey, noop], [.get [0], .noop])) := by
  refine ⟨⟨?_, ?_⟩, ⟨?_, ?_⟩, ?_, ?_⟩ <;> decide +kernel

end LM
