import LibMemcached.Impl.Pedantic
import LibMemcached.Proof.BinaryInput

/-!
# What the binary handlers hand out

Every handler of version 1 calls its callback with the bytes at the places that `handlerTaken` says
(`remap_calls`). These places lie in the packet, and the length of the data does not wrap around,
exactly when the extras of the command and the key fit into the body
(`handlers_stay_in_packet_iff`). The pedantic check would see to that (`contained_of_pedantic`), but
`execute_command` goes on whatever it says.
-/

namespace LM

open RequestHeader

variable {σ : Type} {taken : Taken} {mem : Bytes} {extras : Nat} (I : Interface σ)

/-! ## The calls -/

/-- The bytes of a place. -/
def Span.read (mem : Bytes) (span : Span) : Bytes := slice mem span.offset span.length

/-- The call of a callback with a key, data, fields of the extras and the `cas` of the header. -/
def Callback.call (key data : Bytes) (fields : List Nat) (cas : Nat) : Callback → Invocation
  | .add => .add key data (fields.getD 0 0) (fields.getD 1 0)
  | .append => .append key data cas
  | .decrement => .decrement key (fields.getD 0 0) (fields.getD 1 0) (fields.getD 2 0)
  | .deleteObject => .deleteObject key cas
  | .flushObject => .flushObject (fields.getD 0 0)
  | .get => .get key
  | .increment => .increment key (fields.getD 0 0) (fields.getD 1 0) (fields.getD 2 0)
  | .noop => .noop
  | .prepend => .prepend key data cas
  | .quit => .quit
  | .replace => .replace key data (fields.getD 0 0) (fields.getD 1 0) cas
  | .set => .set key data (fields.getD 0 0) (fields.getD 1 0) cas
  | .stat => .stat key
  | .version => .version

/-- The call of a callback with what its handler takes from the memory. -/
def Taken.call (taken : Taken) (mem : Bytes) (callback : Callback) : Invocation :=
  callback.call ((taken.key.map (·.read mem)).getD []) ((taken.data.map (·.read mem)).getD [])
    (taken.fields.map fun field => bigEndian (field.read mem)) (ofBytes mem).cas

/-- The calls that the handler of a request makes. -/
def handlerCalls (I : Interface σ) (mem : Bytes) : List Invocation :=
  match handlerTaken (ofBytes mem) with
  | some (callback, taken) => if I.present callback then [taken.call mem callback] else []
  | none => []

theorem callHandler_calls (call : Invocation) (handed positive : Answer → List Packet) (s : Serving σ) :
    (callHandler I call handed positive s).2.calls =
      s.calls ++ if I.present call.callback then [call] else [] := by
  unfold callHandler
  split
  · dsimp only
    split <;> rfl
  · simp

section

variable (mem : Bytes) (s : Serving σ)

theorem getCommandHandler_calls : (getCommandHandler I mem s).2.calls =
      s.calls ++ if I.present .get then [.get (storedKey mem 0)] else [] := by
  have h := callHandler_calls I (.get (storedKey mem 0))
    (fun a => a.hits.map (getResponseHandler (.ofBytes mem))) (fun _ => []) s
  unfold getCommandHandler
  dsimp only
  split <;> exact h

theorem noopCommandHandler_calls :
    (noopCommandHandler I mem s).2.calls = s.calls ++ if I.present .noop then [.noop] else [] := by
  unfold noopCommandHandler
  dsimp only
  split
  · rfl
  · simp [Serving.respond]

theorem quitCommandHandler_calls :
    (quitCommandHandler I mem s).2.calls = s.calls ++ if I.present .quit then [.quit] else [] := by
  unfold quitCommandHandler
  dsimp only
  split <;> split
  · rfl
  · simp [Serving.respond]
  · rfl
  · simp

end

/-! The arguments of the calls, for each kind of command. -/

theorem keySpan_read (mem : Bytes) (extras : Nat) :
    (keySpan (.ofBytes mem) extras).read mem = storedKey mem extras := rfl

theorem dataSpan_read (mem : Bytes) (extras : Nat) :
    (dataSpan (.ofBytes mem) extras).read mem = storedData mem extras := by
  simp only [dataSpan, Span.read, storedData, datalen]

theorem Taken.call_of_data (hkey : taken.key = some (keySpan (.ofBytes mem) extras))
    (hdata : taken.data = some (dataSpan (.ofBytes mem) extras)) (callback : Callback) :
    taken.call mem callback = callback.call (storedKey mem extras) (storedData mem extras)
      (taken.fields.map fun field => bigEndian (field.read mem)) (ofBytes mem).cas := by
  rw [Taken.call, hkey, hdata, Option.map_some, Option.map_some, Option.getD_some, Option.getD_some,
    keySpan_read, dataSpan_read]

section

variable (mem : Bytes) (callback : Callback)

theorem storageTaken_call : (storageTaken (.ofBytes mem)).call mem callback =
      callback.call (storedKey mem 8) (storedData mem 8) [storedFlags mem, storedExpiration mem]
        (ofBytes mem).cas :=
  Taken.call_of_data rfl rfl callback

theorem concatenationTaken_call : (concatenationTaken (.ofBytes mem)).call mem callback =
      callback.call (storedKey mem 0) (storedData mem 0) [] (ofBytes mem).cas :=
  Taken.call_of_data rfl rfl callback

theorem arithmeticTaken_call : (arithmeticTaken (.ofBytes mem)).call mem callback =
      callback.call (storedKey mem 20) [] [bigEndian (slice mem 24 8), bigEndian (slice mem 32 8),
        bigEndian (slice mem 40 4)] (ofBytes mem).cas := by
  simp only [arithmeticTaken, Taken.call, Option.map_some, Option.getD_some, keySpan_read]
  rfl

theorem keyTaken_call : (keyTaken (.ofBytes mem)).call mem callback =
      callback.call (storedKey mem 0) [] [] (ofBytes mem).cas := by
  simp only [keyTaken, Taken.call, Option.map_some, Option.getD_some, keySpan_read]
  rfl

end

theorem flushTaken_call (mem : Bytes) : (flushTaken (.ofBytes mem)).call mem .flushObject =
      .flushObject (if (ofBytes mem).bodylen = 4 then bigEndian (slice mem 24 4) else 0) := by
  unfold flushTaken Taken.call
  split <;> rfl

/-- The handler of a command makes the call of its callback with what it takes from the memory. -/
theorem remap_calls {I : Interface σ} {s : Serving σ}
    {handler : Interface σ → Bytes → Serving σ → Handled σ}
    (h : comcodeV0V1Remap (ofBytes mem).opcode = some handler) :
    (handler I mem s).2.calls = s.calls ++ handlerCalls I mem := by
  unfold handlerCalls handlerTaken
  unfold comcodeV0V1Remap at h
  split at h
  all_goals first
    | (obtain rfl := Option.some.inj h
       rename_i ho
       simp only [ho, storageTaken_call, concatenationTaken_call, arithmeticTaken_call, keyTaken_call,
         flushTaken_call]
       first
        | exact getCommandHandler_calls I mem s
        | exact noopCommandHandler_calls I mem s
        | exact quitCommandHandler_calls I mem s
        | exact callHandler_calls I _ _ _ s)
    | cases h

theorem handlerTaken_of_remap_none (h : comcodeV0V1Remap (σ := σ) (ofBytes mem).opcode = none) :
    handlerTaken (ofBytes mem) = none := by
  unfold comcodeV0V1Remap at h
  split at h
  all_goals first
    | exact (Option.some_ne_none _ h).elim
    | (unfold handlerTaken
       split <;> first | rfl | (rename_i ho; simp [ho] at *))

/-- In pedantic mode or not, the execution of a request makes the calls of its handler. -/
theorem executeCommandPedantic_calls (pedantic : Bool) (I : Interface σ)
    (unknown : Option (RawCallback σ)) (mem : Bytes) (s : Serving σ) :
    (executeCommandPedantic pedantic (.v1 I) unknown mem s).2.calls = s.calls ++ handlerCalls I mem := by
  have hsame : executeCommandPedantic pedantic (.v1 I) unknown mem s =
      executeCommand (.v1 I) unknown mem s := by
    unfold executeCommandPedantic
    rw [ite_self]
  have hunknown (h : Handled σ) : (unknownHandler unknown mem h).2.calls = h.2.calls := by
    unfold unknownHandler
    split
    · split <;> rfl
    · rfl
  have hreport (h : Handled σ) : (reportStatus mem h).2.calls = h.2.calls := by
    unfold reportStatus
    split <;> rfl
  rw [hsame, executeCommand, hreport, hunknown, commandHandler]
  cases h : comcodeV0V1Remap (σ := σ) (ofBytes mem).opcode with
  | none => simp [handlerCalls, handlerTaken_of_remap_none h]
  | some handler => exact remap_calls h

/-! ## The places -/

/-- Everything that is taken lies in the packet, and the length of the data is what the body has
left behind the bytes in front of the data: it has not wrapped around. -/
structure Taken.InPacket (taken : Taken) (r : RequestHeader) : Prop where
  fields : ∀ field ∈ taken.fields, field.offset + field.length ≤ r.total
  key : ∀ key ∈ taken.key, key.offset + key.length ≤ r.total
  data : ∀ data ∈ taken.data, data.offset + data.length ≤ r.total
  length : ∀ data ∈ taken.data, (data.length : Int) = r.bodylen - (data.offset - headerLength)

theorem Taken.inPacket_nothing (r : RequestHeader) : Taken.InPacket {} r :=
  ⟨by simp, by simp, by simp, by simp⟩

theorem keylen_lt (mem : Bytes) : (ofBytes mem).keylen < 2 ^ 16 := by
  have h := bigEndian_lt (slice mem 2 2)
  have hl : (slice mem 2 2).length ≤ 2 := List.length_take_le _ _
  exact Nat.lt_of_lt_of_le h (Nat.pow_le_pow_right (by decide) hl)

section Places

variable {r : RequestHeader} (hkey : r.keylen < 2 ^ 16) (hbody : r.bodylen < 2 ^ 32)
include hkey hbody

/-- The data that follows the extras and the key ends with the packet. -/
theorem dataSpan_inPacket (h : extras + r.keylen ≤ r.bodylen) :
    (dataSpan r extras).offset + (dataSpan r extras).length = r.total ∧
      ((dataSpan r extras).length : Int) =
        r.bodylen - (((dataSpan r extras).offset : Int) - headerLength) := by
  simp only [dataSpan, datalen, total, headerLength]
  omega

/-- A handler with extras of a fixed length, a key, and perhaps data behind it stays in the packet
exactly when extras and key do. -/
theorem Taken.inPacket_iff
    (hfields : ∀ field ∈ taken.fields, field.offset + field.length ≤ headerLength + extras)
    (htaken : taken.key = some (keySpan r extras)) (hdata : ∀ data ∈ taken.data, data = dataSpan r extras) :
    taken.InPacket r ↔ extras + r.keylen ≤ r.bodylen := by
  constructor
  · intro h
    have hin := h.key (keySpan r extras) htaken
    simp only [keySpan, total] at hin
    omega
  · intro h
    have htotal : headerLength + extras + r.keylen ≤ r.total := by
      simp only [total]
      omega
    refine ⟨fun field hfield => ?_, fun key hkey => ?_, fun data hmem => ?_, fun data hmem => ?_⟩
    · have := hfields field hfield
      omega
    · obtain rfl := Option.some.inj (htaken.symm.trans hkey)
      exact htotal
    · obtain rfl := hdata data hmem
      exact (dataSpan_inPacket hkey hbody h).1.le
    · obtain rfl := hdata data hmem
      exact (dataSpan_inPacket hkey hbody h).2

/-- What the handler of a command takes lies in the packet exactly when its extras and its key do. -/
theorem handlerTaken_inPacket_iff {callback : Callback} (h : handlerTaken r = some (callback, taken)) :
    taken.InPacket r ↔ ∀ extras ∈ extrasLength r.opcode, extras + r.keylen ≤ r.bodylen := by
  have hstorage : (storageTaken r).InPacket r ↔ 8 + r.keylen ≤ r.bodylen :=
    Taken.inPacket_iff hkey hbody (by simp [storageTaken, headerLength]) rfl (by simp [storageTaken])
  have hconcatenation : (concatenationTaken r).InPacket r ↔ 0 + r.keylen ≤ r.bodylen :=
    Taken.inPacket_iff hkey hbody (by simp [concatenationTaken]) rfl (by simp [concatenationTaken])
  have harithmetic : (arithmeticTaken r).InPacket r ↔ 20 + r.keylen ≤ r.bodylen :=
    Taken.inPacket_iff hkey hbody (by simp [arithmeticTaken, headerLength]) rfl
      (by simp [arithmeticTaken])
  have hkeyed : (keyTaken r).InPacket r ↔ 0 + r.keylen ≤ r.bodylen :=
    Taken.inPacket_iff hkey hbody (by simp [keyTaken]) rfl (by simp [keyTaken])
  have hflush : (flushTaken r).InPacket r := by
    refine ⟨fun field hfield => ?_, by simp [flushTaken], by simp [flushTaken], by simp [flushTaken]⟩
    simp only [flushTaken] at hfield
    split at hfield
    · simp only [List.mem_singleton] at hfield
      simp only [hfield, total, headerLength]
      omega
    · simp at hfield
  have hnothing := Taken.inPacket_nothing r
  unfold handlerTaken at h
  split at h
  all_goals first
    | (obtain ⟨rfl, rfl⟩ := Prod.mk.inj (Option.some.inj h)
       rename_i ho
       simp [ho, extrasLength, hstorage, hconcatenation, harithmetic, hkeyed, hflush, hnothing])
    | cases h

end Places

/-- The callback of the command is there, and then its extras and its key fit into the body. -/
def FitsHandler (I : Interface σ) (packet : Bytes) : Prop :=
  ∀ handler ∈ handlerTaken (ofBytes packet), I.present handler.1 = true →
    ∀ extras ∈ extrasLength (ofBytes packet).opcode,
      extras + (ofBytes packet).keylen ≤ (ofBytes packet).bodylen

/-- Every complete request, whatever its header says and whatever lies behind it in memory, in
pedantic mode or not: the callback is called with what the handler takes, and that lies in the packet
with a data length that has not wrapped around exactly when extras and key fit into the body. -/
theorem handlers_stay_in_packet_iff (I : Interface σ) (unknown : Option (RawCallback σ))
    {packet : Bytes} (hp : Complete packet) (pedantic : Bool) (more : Bytes) (s : Serving σ) :
    (executeCommandPedantic pedantic (.v1 I) unknown (packet ++ more) s).2.calls =
        s.calls ++ handlerCalls I (packet ++ more) ∧
      ((executeTaken I (packet ++ more)).InPacket (ofBytes packet) ↔
        FitsHandler I packet) := by
  refine ⟨executeCommandPedantic_calls pedantic I unknown _ s, ?_⟩
  unfold executeTaken FitsHandler
  rw [ofBytes_append hp.header]
  cases h : handlerTaken (ofBytes packet) with
  | none => simp [Taken.inPacket_nothing]
  | some handler =>
    obtain ⟨callback, taken⟩ := handler
    have htaken := handlerTaken_inPacket_iff (keylen_lt packet) (bodylen_lt packet) h
    cases hpresent : I.present callback <;>
      simp [hpresent, htaken, Taken.inPacket_nothing]

/-- An application with every callback. -/
def allPresent : Interface Unit := ⟨fun _ => true, fun _ _ => ({ status := .success }, ())⟩

/-- A `set` of the key `k` and the value `v`. -/
def setPacket : Bytes :=
  [0x80, 0x01, 0, 1, 8, 0, 0, 0, 0, 0, 0, 10, 0, 0, 0, 0, 0, 0, 0, 0, 0, 0, 0, 0] ++
    [0, 0, 0, 0, 0, 0, 0, 0, 0x6b, 0x76]

theorem handlers_stay_in_packet_iff_set :
    (executeCommandPedantic true (.v1 allPresent) none (setPacket ++ []) { app := () }).2.calls =
        [] ++ handlerCalls allPresent (setPacket ++ []) ∧
      ((executeTaken allPresent (setPacket ++ [])).InPacket (ofBytes setPacket) ↔
        FitsHandler allPresent setPacket) :=
  handlers_stay_in_packet_iff allPresent none ⟨by decide, by decide⟩ true [] { app := () }

/-- A `set` without a body. -/
def bareSet : Bytes :=
  [0x80, 0x01, 0, 0, 0, 0, 0, 0, 0, 0, 0, 0, 0, 0, 0, 0, 0, 0, 0, 0, 0, 0, 0, 0]

/-- A `get` whose key is longer than its body. -/
def longKeyGet : Bytes :=
  [0x80, 0x00, 0, 5, 0, 0, 0, 0, 0, 0, 0, 0, 0, 0, 0, 0, 0, 0, 0, 0, 0, 0, 0, 0]

/-- Two complete packets that fail the pedantic check and are executed all the same. The callback of
`set` is given data of 2^32 - 8 bytes, and that of `get` the five bytes behind the packet. -/
theorem handlers_leave_packet :
    Complete bareSet ∧ pedanticCheckRequest bareSet = false ∧
      (executeTaken allPresent bareSet).data = some ⟨32, 4294967288⟩ ∧
    Complete longKeyGet ∧ pedanticCheckRequest longKeyGet = false ∧
      (executeCommandPedantic true (.v1 allPresent) none (longKeyGet ++ [1, 2, 3, 4, 5])
        { app := () }).2.calls = [.get [1, 2, 3, 4, 5]] := by
  decide +kernel

/-! ## The check that is not enforced -/

/-- A packet that passes the pedantic check contains the extras and the key of its command. -/
theorem contained_of_pedantic {packet : Bytes} (h : pedanticCheckRequest packet = true) :
    Contained (.v1 I) packet := by
  unfold pedanticCheckRequest at h
  simp only [Bool.and_eq_true, decide_eq_true_eq] at h
  obtain ⟨⟨-, hbody⟩, hcommand⟩ := h
  unfold Contained
  intro extras hextras
  unfold pedanticCheckCommand at hcommand
  unfold extrasLength at hextras
  -- the extras of the header are those of the command
  split at hextras
  all_goals first
    | (obtain rfl := Option.some.inj hextras
       rename_i ho
       simp only [ho, Bool.and_eq_true, decide_eq_true_eq] at hcommand
       omega)
    | cases hextras

/-- A complete request that passes the check is executed in the same way whatever lies behind it in memory. -/
theorem pedantic_request_alone (I : Interface σ) (unknown : Option (RawCallback σ)) {packet : Bytes}
    (hp : Complete packet) (h : pedanticCheckRequest packet = true) (more : Bytes) (s : Serving σ) :
    executeCommand (.v1 I) unknown (packet ++ more) s = executeCommand (.v1 I) unknown packet s :=
  executeCommand_append hp more unknown s (contained_of_pedantic I h)

theorem pedantic_request_alone_set : executeCommand (.v1 allPresent) none (setPacket ++ [1]) { app := () } =
    executeCommand (.v1 allPresent) none setPacket { app := () } :=
  pedantic_request_alone allPresent none ⟨by decide, by decide⟩ (by decide) [1] { app := () }

end LM
