import LibMemcached.Proof.Footprint
import LibMemcached.Proof.InStep

/-!
# Binary packets and the bounds of memory

What `binary_read_one_response` touches is in bounds just if the lengths in the header agree with each
other and with the buffers that are not measured against them (`binary_response_in_bounds`): the key of a
value with `item_key`, the text of a version with its buffer, and what is copied to the caller's buffer with
that buffer, whose test is a 32-bit sum.
-/

namespace LM

open List

variable {κ α β : Type} {K : Kernel κ} {grows : Nat → Bool} {size : Nat} {p : St κ × Footprint}
  {length room offset bufferLength : Nat} {buffer : Bytes} {f : Bytes → Touch κ Reply} {place : Place}
  {result : Result} {Q : Reply → St κ × Footprint → Prop} {onFail : Touch κ Reply} {m : Act κ ReturnT}
  {bodylen count : Nat} {bytes : Bytes} {header : Header} {f' : Bytes → Act κ Reply}

namespace Touch

/-! ## Steps that stay in bounds -/

section

variable (h : p.2.InBounds size)
include h

theorem subtracted_inBounds {length : Int} (hlength : 0 ≤ length) :
    Ensures (subtracted length) p fun _ q => q.1 = p.1 ∧ q.2.capacity = p.2.capacity ∧ q.2.InBounds size :=
  ensures_modify.mpr ⟨rfl, rfl, h.reads, h.writes,
    forall_mem_append.mpr ⟨h.lengths, forall_mem_singleton.mpr hlength⟩⟩

theorem readPart_inBounds (hroom : length = 0 ∨ offset + length ≤ room)
    (hfail : ∀ q, q.2.InBounds size → Ensures onFail q Q)
    (hf : ∀ part q, part.length = length → q.2.InBounds size → Ensures (f part) q Q) :
    Ensures (readPart K place room offset length onFail f) p Q := by
  refine (ensures_memcachedSafeRead length).bind fun r q hq => ?_
  obtain ⟨hlength, hle, hq⟩ := hq
  refine (wrote_inBounds (hq ▸ h) (by omega)).bind fun _ t ht => ?_
  refine ensures_ite (fun hrc => hf _ t ?_ ht.2.2) fun _ => hfail t ht.2.2
  rw [bytesOf, length_map, hlength hrc]

/-- A value, for which the value string is made large enough. -/
theorem readValue_inBounds (hfail : ∀ rc q, q.2.InBounds size → Q ⟨rc, buffer, result⟩ q)
    (hf : ∀ part q, q.2.InBounds size → Ensures (f part) q Q) :
    Ensures (readValue K grows length buffer result f) p Q := by
  refine (memcachedStringCheck_inBounds h).bind fun ok q hq => ensures_ite (fun hok => ?_) fun _ => ?_
  · refine ensures_bind.mpr (ensures_bind.mpr (ensures_get.mpr (ensures_pure.mpr ?_)))
    have hroom := hq.1 hok
    exact readPart_inBounds hq.2.2 (.inr (by omega)) (fun r hr => ensures_pure.mpr (hfail _ r hr))
      fun part r _ hr => hf part r hr
  · exact ensures_pure.mpr (hfail _ q hq.2.2)

theorem code_inBounds {R : St κ → St κ → Prop} {P : ReturnT → Prop} (hm : Keeps R P m)
    (hQ : ∀ rc q, P rc → q.2.InBounds size → Q ⟨rc, buffer, result⟩ q) :
    Ensures (do let rc ← lift m; return ⟨rc, buffer, result⟩) p Q :=
  (ensures_lift_keeps hm).bind fun rc q hq => ensures_pure.mpr (hQ rc q hq.1 (hq.2 ▸ h))

end

theorem drainBody_inBounds {fuel : Nat} (hfuel : bodylen ≤ fuel) (h : p.2.InBounds size) :
    Ensures (drainBody K fuel bodylen) p fun _ q => q.2.InBounds size := by
  induction fuel generalizing bodylen p with
  | zero =>
    obtain rfl : bodylen = 0 := by omega
    exact ensures_pure.mpr h
  | succ fuel ih =>
    cases bodylen with
    | zero => exact ensures_pure.mpr h
    | succ bodylen =>
      have hmin : 1 ≤ min (bodylen + 1) smallStringLen := by simp only [smallStringLen]; omega
      refine (ensures_memcachedSafeRead _).bind fun r q hq => ?_
      obtain ⟨-, hle, hq⟩ := hq
      refine (wrote_inBounds (hq ▸ h) (by omega)).bind fun _ t ht => ensures_ite (fun _ => ?_) fun _ => ?_
      · refine (subtracted_inBounds ht.2.2 (by omega)).bind fun _ u hu => ih (by omega) hu.2.2
      · exact (ensures_lift_keeps (setError_keeps (K := K) _)).mono fun _ u hu => hu.2 ▸ ht.2.2

end Touch

/-! ## Headers that fit -/

/-- A header that announces an entry of the statistics. -/
def Header.StatEntry (header : Header) : Prop :=
  header.magic = 0x81 ∧ header.Succeeds ∧ Opcode.ofByte? header.opcode = some .stat ∧ header.bodylen ≠ 0

/-- The key and the value of an entry end in a zero byte inside the caller's buffer. -/
def Terminated (keylen bufferLength : Nat) (buffer : Bytes) : Prop :=
  buffer[keylen]? = some 0 ∧ ∃ i, keylen < i ∧ i < bufferLength ∧ buffer[i]? = some 0

/-- What a reply to `header` and the record have to be. -/
def BoundedReply (header : Header) (bufferLength : Nat) (reply : Reply) (f : Footprint) : Prop :=
  f.InBounds 0 ∧ (header.StatEntry → reply.rc ≠ .unknownReadFailure →
    Terminated header.keylen bufferLength reply.buffer)

/-- What `binary_read_one_response` touches after it read the header `bytes` is in bounds, whatever the
server sends, and the two texts of an entry are terminated. -/
def PacketInBounds (bytes : Bytes) (bufferLength : Nat) : Prop :=
  ∀ (κ : Type) (K : Kernel κ) (grows : Nat → Bool) (capacity : Nat) (s t : St κ) (cells : List InByte)
    (buffer : Bytes) (result : Result),
    memcachedSafeRead K headerLength s = some ((.success, cells), t) → bytesOf cells = bytes →
    Ensures (Touch.binaryReadOneResponse K grows bufferLength buffer result) (s, { capacity := capacity })
      fun reply q => BoundedReply (Header.ofBytes bytes) bufferLength reply q.2

/-- The lengths in the header of a packet that reports success agree with each other and with the
buffers. -/
structure Header.Fits (header : Header) (bufferLength : Nat) : Prop where
  value (h : Opcode.ofByte? header.opcode = some .getk ∨ Opcode.ofByte? header.opcode = some .getkq) :
    header.keylen ≤ maxKey ∧ header.extlen + header.keylen ≤ header.bodylen
  version (h : Opcode.ofByte? header.opcode = some .version) : header.bodylen ≤ versionBufferLength
  mechs (h : Opcode.ofByte? header.opcode = some .saslListMechs) (hkey : header.keylen = 0)
    (hroom : (header.bodylen + 1) % 2 ^ 32 ≤ bufferLength) : header.bodylen ≤ bufferLength
  stat (h : Opcode.ofByte? header.opcode = some .stat) (hbody : header.bodylen ≠ 0)
    (hroom : (header.bodylen + 1) % 2 ^ 32 ≤ bufferLength) :
    header.keylen ≤ header.bodylen ∧ header.bodylen + 2 ≤ bufferLength

theorem terminated_overlay {key value : Bytes} (h : key.length + value.length + 2 ≤ bufferLength) :
    Terminated key.length bufferLength (overlay (key ++ [0] ++ value) (List.replicate bufferLength 0)) := by
  refine ⟨?_, key.length + value.length + 1, by omega, by omega, ?_⟩
  · simp [overlay]
  · rw [overlay, List.getElem?_append_right (by simp; omega), drop_replicate, List.getElem?_replicate,
      if_pos (by simp; omega)]

namespace Touch

variable {header : Header} {bufferLength : Nat}

theorem binaryValue_inBounds (hkey : header.keylen ≤ maxKey)
    (hbody : header.extlen + header.keylen ≤ header.bodylen) (h : p.2.InBounds size) (buffer : Bytes) :
    Ensures (binaryValue K grows header buffer) p fun _ q => q.2.InBounds size := by
  unfold binaryValue
  refine readPart_inBounds h (.inr (Nat.le_refl 4)) (fun q hq => ensures_pure.mpr hq) fun flags q _ hq => ?_
  refine (subtracted_inBounds hq (by omega)).bind fun _ r hr => ?_
  refine readPart_inBounds hr.2.2 (by omega) (fun q hq => ensures_pure.mpr hq) fun key t hlength ht => ?_
  refine ensures_bind.mpr (ensures_get.mpr (ensures_ite (fun _ => ?_) fun _ => ?_))
  · exact code_inBounds ht (setError_keeps (K := K) _) fun _ _ _ h => h
  · refine (wrote_inBounds ht ?_).bind fun _ u hu => ?_
    · split <;> omega
    · refine (subtracted_inBounds hu.2.2 (by omega)).bind fun _ v hv => ?_
      refine readValue_inBounds hv.2.2 (fun _ _ h => h) fun value w hw => ?_
      exact code_inBounds hw (binaryStatus_keeps (K := K) _) fun _ _ _ h => h

theorem binarySuccess_inBounds (hfits : header.Fits bufferLength) (hbody : header.bodylen < 2 ^ 32)
    (h : p.2.InBounds 0) (buffer : Bytes) (result : Result) :
    Ensures (binarySuccess K grows header bufferLength buffer result) p fun reply q =>
      BoundedReply header bufferLength reply q.2 := by
  have other (hop : Opcode.ofByte? header.opcode ≠ some .stat) {m : Touch κ Reply} {q : St κ × Footprint}
      (hm : Ensures m q fun _ r => r.2.InBounds 0) :
      Ensures m q fun reply r => BoundedReply header bufferLength reply r.2 :=
    hm.mono fun reply r hr => ⟨hr, fun hstat => absurd hstat.2.2.1 hop⟩
  have done {reply : Reply} (q : St κ × Footprint) (hq : q.2.InBounds 0) :
      Ensures (return reply : Touch κ Reply) q fun _ r => r.2.InBounds 0 := ensures_pure.mpr hq
  have finish {buffer : Bytes} {result : Result} {q : St κ × Footprint} (hq : q.2.InBounds 0) :
      Ensures (do let rc ← lift (binaryStatus header.status); return (⟨rc, buffer, result⟩ : Reply)) q
        fun _ r => r.2.InBounds 0 :=
    code_inBounds hq (binaryStatus_keeps (K := K) _) fun _ _ _ h => h
  have refused {buffer : Bytes} {result : Result} {q : St κ × Footprint} (hq : q.2.InBounds 0) :
      Ensures (do let rc ← lift (setError .unknownReadFailure); return (⟨rc, buffer, result⟩ : Reply)) q
        fun _ r => r.2.InBounds 0 :=
    code_inBounds hq (setError_keeps (K := K) _) fun _ _ _ h => h
  unfold binarySuccess
  split <;> rename_i hop
  · obtain ⟨hkey, hbody⟩ := hfits.value (.inr hop)
    refine other (by simp [hop]) ((ensures_lift_keeps (responseIncrement_keeps (K := K))).bind fun _ q hq => ?_)
    exact binaryValue_inBounds hkey hbody (hq.2 ▸ h) buffer
  · obtain ⟨hkey, hbody⟩ := hfits.value (.inl hop)
    exact other (by simp [hop]) (binaryValue_inBounds hkey hbody h buffer)
  iterate 2
    refine other (by simp [hop]) (ensures_ite (fun _ => refused h) fun _ => ?_)
    exact readPart_inBounds h (.inr (Nat.le_refl 8)) done fun _ q _ hq => finish hq
  · refine other (by simp [hop]) (ensures_ite (fun _ => done _ h) fun hroom => ?_)
    obtain ⟨hkey, hroom⟩ := not_or.mp hroom
    have := hfits.mechs hop (by omega) (by omega)
    exact readPart_inBounds h (by omega) done fun _ q _ hq => finish hq
  · have := hfits.version hop
    refine other (by simp [hop]) (readPart_inBounds h (by omega) done fun text q _ hq => ?_)
    refine (ensures_lift_keeps (readVersion_keeps (K := K) text)).bind fun rc r hr => ?_
    exact ensures_ite (fun _ => finish (hr.2 ▸ hq)) fun _ => done _ (hr.2 ▸ hq)
  · have hread : Ensures (lift (if header.bodylen = 4 then memcachedSafeRead K 4 else pure (.success, []))) p
        fun r q => r.2.length ≤ 4 ∧ q.2 = p.2 := by
      split
      · exact (ensures_memcachedSafeRead 4).mono fun _ _ hq => hq.2
      · exact ensures_lift (ensures_pure.mpr ⟨Nat.zero_le 4, rfl⟩)
    refine other (by simp [hop]) (hread.bind fun r q hq => ?_)
    refine (wrote_inBounds (hq.2 ▸ h) (by omega)).bind fun _ t ht => ?_
    exact code_inBounds ht.2.2 (setError_keeps (K := K) _) fun _ _ _ h => h
  iterate 9 exact other (by simp [hop]) (done _ h)
  · refine ensures_ite (fun hzero => ensures_pure.mpr ⟨h, fun hstat => absurd hzero hstat.2.2.2⟩) fun hne => ?_
    refine ensures_ite (fun _ => ensures_pure.mpr ⟨h, fun _ hrc => absurd rfl hrc⟩) fun hroom => ?_
    obtain ⟨hkey, hbuffer⟩ := hfits.stat hop hne (by omega)
    have hnr : (2 ^ 64 + header.bodylen - header.keylen) % 2 ^ 64 = header.bodylen - header.keylen := by omega
    refine (wrote_inBounds h (.inr (by omega))).bind fun _ q hq => ?_
    refine readPart_inBounds hq.2.2 (by omega) (fun r hr => ensures_pure.mpr ⟨hr, fun _ hrc => absurd rfl hrc⟩)
      fun key r hkeylen hr => ?_
    refine (subtracted_inBounds hr (by omega)).bind fun _ t ht => ?_
    rw [hnr]
    refine readPart_inBounds ht.2.2 (by omega)
      (fun u hu => ensures_pure.mpr ⟨hu, fun _ hrc => absurd rfl hrc⟩) fun value u hvalue hu => ?_
    refine code_inBounds hu (binaryStatus_keeps (K := K) _) fun _ v _ hv => ⟨hv, fun _ _ => ?_⟩
    rw [← hkeylen]
    exact terminated_overlay (by omega)
  iterate 2 exact other (by simp [hop]) (readValue_inBounds h (fun _ _ hq => hq) fun _ q hq => finish hq)
  · exact other (by simp_all) (refused h)

theorem binaryResponse_inBounds (hfits : header.magic = 0x81 → header.Succeeds → header.Fits bufferLength)
    (hbody : header.bodylen < 2 ^ 32) (h : p.2.InBounds 0) (buffer : Bytes) (result : Result) :
    Ensures (binaryResponse K grows header bufferLength buffer result) p fun reply q =>
      BoundedReply header bufferLength reply q.2 := by
  refine ensures_ite (fun hmagic => ?_) fun hmagic => ensures_ite (fun hok => ?_) fun hfails => ?_
  · exact code_inBounds h (setError_keeps (K := K) _) fun _ _ _ hq => ⟨hq, fun hstat => absurd hstat.1 hmagic⟩
  · exact binarySuccess_inBounds (hfits (not_not.mp hmagic) hok) hbody h buffer result
  · have other {reply : Reply} {q : St κ × Footprint} (hq : q.2.InBounds 0) :
        BoundedReply header bufferLength reply q.2 := ⟨hq, fun hstat => absurd hstat.2.1 hfails⟩
    refine (drainBody_inBounds (Nat.le_refl _) h).bind fun rc q hq => ensures_ite (fun _ => ?_) fun _ => ?_
    · exact ensures_pure.mpr (other hq)
    · refine ensures_ite (fun _ => ensures_pure.mpr (other hq)) fun _ => ?_
      exact code_inBounds hq (binaryStatus_keeps (K := K) _) fun _ _ _ hr => other hr

end Touch

open Touch in
/-- Packets whose lengths agree stay in bounds. -/
theorem packetInBounds_of_fits
    (hfits : (Header.ofBytes bytes).magic = 0x81 → (Header.ofBytes bytes).Succeeds → (Header.ofBytes bytes).Fits bufferLength) :
    PacketInBounds bytes bufferLength := by
  rintro κ K grows capacity s t cells buffer result hrun rfl
  have hlength : cells.length ≤ headerLength := memcachedSafeRead_length_le _ s _ _ hrun
  have hread : Ensures (lift (memcachedSafeRead K headerLength)) (s, { capacity := capacity }) fun r q =>
      r = (.success, cells) ∧ q.2 = { capacity := capacity } :=
    lift_spec (Ensures.of_eq hrun) |>.mono fun _ _ hq => ⟨hq.1.1, hq.2⟩
  refine hread.bind fun r q hq => ?_
  obtain ⟨rfl, hq⟩ := hq
  have hempty : q.2.InBounds 0 := hq ▸ .empty 0 capacity
  refine (wrote_inBounds hempty (.inr (by omega))).bind fun _ u hu => ?_
  simp only [ne_eq, not_true_eq_false, if_false]
  refine ensures_bind.mpr (ensures_lift (ensures_modify.mpr ?_))
  refine binaryResponse_inBounds hfits (Header.bodylen_lt _) ?_ buffer result
  exact hu.2.2

/-! ## Headers that do not fit -/

namespace Touch

namespace Adds

theorem subtracted {length : Int} : Adds (subtracted length : Touch κ Unit) :=
  note fun _ => ⟨fun _ h => h, fun _ h => h, fun _ h => mem_append_left _ h⟩

theorem readPart (hfail : Adds onFail) (hf : ∀ part, Adds (f part)) :
    Adds (readPart K place room offset length onFail f) :=
  lift.bind fun _ => wrote.bind fun _ => .ite (hf _) hfail

theorem readValue (hf : ∀ part, Adds (f part)) : Adds (readValue K grows length buffer result f) :=
  memcachedStringCheck.bind fun _ => .ite (capacity.bind fun _ => readPart pure hf) pure

theorem code :
    Adds (do let rc ← Touch.lift m; return (⟨rc, buffer, result⟩ : Reply)) := lift.bind fun _ => pure

end Adds

theorem inBounds_of_adds {m : Touch κ Reply} (hm : Adds m)
    (h : Ensures m p fun reply q => BoundedReply header bufferLength reply q.2) : p.2.InBounds 0 := by
  obtain ⟨reply, q, hrun, hin, -⟩ := h
  exact hin.of_partOf (hm p reply q hrun)

/-- A connection on which `n` more bytes arrive, none of them zero. -/
structure Fed (s : St (List InByte)) (n : Nat) : Prop where
  valid : s.valid = true
  unread : bytesOf (s.unread id) = List.replicate n 1
  namespace_ : s.memc.namespace_ = none

variable {header : Header} {bufferLength n : Nat} {q : St (List InByte) × Footprint}

section

variable (hfed : Fed q.1 n)
include hfed

theorem readPart_fed (hn : length ≤ n) {onFail : Touch (List InByte) Reply}
    {f : Bytes → Touch (List InByte) Reply} (hf : ∀ part, Adds (f part))
    (h : Ensures (readPart (drip 0) place room offset length onFail f) q fun reply r => BoundedReply header bufferLength reply r.2) :
    (length = 0 ∨ offset + length ≤ room) ∧ ∃ r : St (List InByte) × Footprint, Fed r.1 (n - length) ∧
      Ensures (f (List.replicate length 1)) r fun reply r => BoundedReply header bufferLength reply r.2 := by
  have hu : bytesOf (q.1.unread id) = List.replicate length 1 ++ List.replicate (n - length) 1 := by
    rw [hfed.unread, replicate_append_replicate, Nat.add_sub_cancel' hn]
  have hread := memcachedSafeRead_fills (drip_delivers 0).toFeeds.fills hfed.valid trivial hu
  rw [length_replicate] at hread
  obtain ⟨a, r, hr, htail⟩ := ensures_bind.mp h
  obtain ⟨⟨hrc, hpart, hadvance, hrest⟩, hrec⟩ := (lift_spec hread).elim hr
  obtain ⟨_, t, ht, htail⟩ := ensures_bind.mp htail
  rw [if_pos hrc, hpart] at htail
  have hlength : a.2.length = length := by
    have := congrArg List.length hpart
    rwa [bytesOf, length_map, length_replicate] at this
  have hin := inBounds_of_adds (hf _) htail
  have ht : some ((), (r.1, { r.2 with
      writes := r.2.writes ++ (List.range' offset a.2.length).map (⟨place, ·, room⟩) })) = some ((), t) := ht
  cases ht
  refine ⟨?_, _, ?_, htail⟩
  · by_cases hzero : length = 0
    · exact .inl hzero
    have hlast : offset + length - 1 < room := hin.writes ⟨place, offset + length - 1, room⟩
      (mem_append_right _ (mem_map.mpr ⟨_, mem_range'_1.mpr (by omega), rfl⟩))
    exact .inr (by omega)
  · exact ⟨hadvance.valid.trans hfed.valid, hrest, by rw [hadvance.memc, hfed.namespace_]⟩

/-- A length that is computed is not below zero. -/
theorem subtracted_fed {length : Int} {m : Touch (List InByte) Reply} (hm : Adds m)
    (h : Ensures (do subtracted length; m) q fun reply r => BoundedReply header bufferLength reply r.2) :
    0 ≤ length ∧ ∃ r : St (List InByte) × Footprint, Fed r.1 n ∧
      Ensures m r fun reply r => BoundedReply header bufferLength reply r.2 := by
  obtain ⟨_, r, hr, htail⟩ := ensures_bind.mp h
  have hin := inBounds_of_adds hm htail
  have hr : some ((), (q.1, { q.2 with lengths := q.2.lengths ++ [length] })) = some ((), r) := hr
  cases hr
  refine ⟨hin.lengths length (mem_append_right _ (mem_singleton.mpr rfl)), _, ?_, htail⟩
  exact hfed

theorem wrote_fed {m : Touch (List InByte) Reply}
    (h : Ensures (do wrote place room offset count; m) q fun reply r => BoundedReply header bufferLength reply r.2) :
    ∃ r : St (List InByte) × Footprint, Fed r.1 n ∧
      Ensures m r fun reply r => BoundedReply header bufferLength reply r.2 := by
  obtain ⟨_, r, hr, htail⟩ := ensures_bind.mp h
  have hr : some ((), (q.1, { q.2 with
      writes := q.2.writes ++ (List.range' offset count).map (⟨place, ·, room⟩) })) = some ((), r) := hr
  cases hr
  refine ⟨_, ?_, htail⟩
  exact hfed

theorem binaryValue_fed (hn : 4 + header.keylen ≤ n)
    (h : Ensures (binaryValue (drip 0) grows header buffer) q fun reply r => BoundedReply header bufferLength reply r.2) :
    header.keylen ≤ maxKey ∧ header.extlen + header.keylen ≤ header.bodylen := by
  have value {result : Result} : Adds (κ := List InByte) (readValue (drip 0) grows
      ((header.bodylen + 2 ^ 33 - header.extlen - header.keylen) % 2 ^ 32) buffer result fun value => do
        let rc ← lift (binaryStatus header.status)
        return ⟨rc, buffer, { result with value := value }⟩) := .readValue fun _ => .code
  have tail {result : Result} (key : Bytes) : Adds (κ := List InByte) (do
      let p ← get
      let ns := (p.1.memc.namespace_.getD []).length
      if key ≠ [] ∧ ns ≠ 0 ∧ key.length ≤ ns then do
        let rc ← lift (setError .unknownReadFailure)
        return ⟨rc, buffer, { result with itemKey := key }⟩
      else
        let result := { result with itemKey := key.drop ns }
        wrote .itemKey maxKey 0 (if ns = 0 then 0 else key.length - ns)
        subtracted (header.bodylen - header.extlen - header.keylen)
        readValue (drip 0) grows ((header.bodylen + 2 ^ 33 - header.extlen - header.keylen) % 2 ^ 32) buffer result
          fun value => do
            let rc ← lift (binaryStatus header.status)
            return ⟨rc, buffer, { result with value := value }⟩) :=
    .get_bind fun _ => .ite .code (Adds.wrote.bind fun _ => Adds.subtracted.bind fun _ => value)
  unfold binaryValue at h
  obtain ⟨-, q, hfed, h⟩ := readPart_fed hfed (by omega)
    (fun _ => Adds.subtracted.bind fun _ => .readPart .pure fun key => tail key) h
  obtain ⟨hext, q, hfed, h⟩ := subtracted_fed hfed (.readPart .pure fun key => tail key) h
  obtain ⟨hkey, q, hfed, h⟩ := readPart_fed hfed (by omega) tail h
  rw [ensures_bind, ensures_get] at h
  simp only [hfed.namespace_, Option.getD_none, length_nil, ne_eq, not_true_eq_false, false_and, and_false,
    if_false] at h
  obtain ⟨q, hfed, h⟩ := wrote_fed hfed h
  obtain ⟨hbody, -⟩ := subtracted_fed hfed value h
  omega

end

/-- The value of an entry has a zero byte behind it only if there is room for one. -/
theorem room_of_terminated {keylen : Nat} (hkey : keylen ≤ bodylen)
    (h : Terminated keylen bufferLength (overlay (List.replicate keylen 1 ++ [0] ++ List.replicate (bodylen - keylen) 1) (List.replicate bufferLength 0))) :
    bodylen + 2 ≤ bufferLength := by
  obtain ⟨-, i, hlt, hi, hzero⟩ := h
  by_contra hroom
  rw [overlay, List.getElem?_append_left (by simp; omega), List.getElem?_append_right (by simp; omega),
    List.getElem?_replicate_of_lt (by simp; omega)] at hzero
  cases hzero

theorem binaryStatus_answers (hok : header.Succeeds) (s : St κ) :
    Ensures (binaryStatus header.status) s fun rc _ => rc ≠ .unknownReadFailure := by
  rcases hok with h | h <;> rw [h]
  · exact ensures_pure.mpr (by decide)
  · exact ensures_pure.mpr (by decide)

theorem stat_fed (hfed : Fed q.1 n) (hn : header.bodylen + header.keylen ≤ n) (hstat : header.StatEntry)
    (hlt : header.bodylen < 2 ^ 32) (hroom : (header.bodylen + 1) % 2 ^ 32 ≤ bufferLength)
    (h : Ensures (binarySuccess (drip 0) grows header bufferLength buffer result) q fun reply r => BoundedReply header bufferLength reply r.2) :
    header.keylen ≤ header.bodylen ∧ header.bodylen + 2 ≤ bufferLength := by
  have value {buffer : Bytes} (key : Bytes) : Adds (κ := List InByte) (readPart (drip 0) .caller bufferLength
      (header.keylen + 1) ((2 ^ 64 + header.bodylen - header.keylen) % 2 ^ 64)
      (return ⟨.unknownReadFailure, buffer, result⟩) fun value => do
        let rc ← lift (binaryStatus header.status)
        return ⟨rc, overlay (key ++ [0] ++ value) (List.replicate bufferLength 0), result⟩) :=
    .readPart .pure fun _ => .code
  have ⟨_, hok, hop, hne⟩ := hstat
  simp only [binarySuccess, hop, if_neg hne, if_neg (Nat.not_lt_of_le hroom)] at h
  obtain ⟨q, hfed, h⟩ := wrote_fed hfed h
  obtain ⟨-, q, hfed, h⟩ := readPart_fed hfed (by omega) (fun key => Adds.subtracted.bind fun _ => value key) h
  obtain ⟨hkey, q, hfed, h⟩ := subtracted_fed hfed (value _) h
  have hkey : header.keylen ≤ header.bodylen := by omega
  rw [show (2 ^ 64 + header.bodylen - header.keylen) % 2 ^ 64 = header.bodylen - header.keylen by omega] at h
  obtain ⟨-, q, hfed, h⟩ := readPart_fed hfed (by omega) (fun _ => .code) h
  obtain ⟨rc, r, hr, h⟩ := ensures_bind.mp h
  have hrc := ((lift_spec (binaryStatus_answers hok q.1)).elim hr).1
  exact ⟨hkey, room_of_terminated hkey ((ensures_pure.mp h).2 hstat hrc)⟩

end Touch

open Touch in
/-- Packets that stay in bounds have lengths that agree. -/
theorem PacketInBounds.fits (h24 : bytes.length = headerLength) (h : PacketInBounds bytes bufferLength)
    (hmagic : (Header.ofBytes bytes).magic = 0x81) (hok : (Header.ofBytes bytes).Succeeds) :
    (Header.ofBytes bytes).Fits bufferLength := by
  generalize hn : 4 + (Header.ofBytes bytes).keylen + (Header.ofBytes bytes).bodylen = n
  have hu : bytesOf ((arriving (bytes ++ List.replicate n 1)).unread id) = bytes ++ List.replicate n 1 := by
    simp [arriving, Conn.unread, bytesOf, answerCells, Function.comp_def]
  have hread := memcachedSafeRead_fills (drip_delivers 0).toFeeds.fills
    (s := arriving (bytes ++ List.replicate n 1)) rfl trivial hu
  rw [h24] at hread
  obtain ⟨⟨rc, cells⟩, t, hrun, rfl, hcells, hadvance, hrest⟩ := hread
  have hfed : Fed t n := ⟨hadvance.valid, hrest, by rw [hadvance.memc]; rfl⟩
  obtain ⟨q, hq, hpacket⟩ : ∃ q : St (List InByte) × Footprint, Fed q.1 n ∧
      Ensures (Touch.binarySuccess (drip 0) (fun _ => true) (Header.ofBytes bytes) bufferLength [] {}) q
        fun reply r => BoundedReply (Header.ofBytes bytes) bufferLength reply r.2 := by
    have hwhole := h _ (drip 0) (fun _ => true) 0 _ t cells [] {} hrun hcells
    have hlift : lift (memcachedSafeRead (drip 0) headerLength) (arriving (bytes ++ List.replicate n 1),
        ({ capacity := 0 } : Footprint)) = some ((.success, cells), (t, { capacity := 0 })) := by
      simp only [lift, hrun, Option.map_some]
    have hpacket := (ensures_bind.mp hwhole).elim hlift
    obtain ⟨q, hq, hpacket⟩ := wrote_fed hfed hpacket
    simp only [ne_eq, not_true_eq_false, if_false, hcells] at hpacket
    obtain ⟨_, r, hr, hpacket⟩ := ensures_bind.mp hpacket
    have hr : some ((), ({ q.1 with lastReply := cells }, q.2)) = some ((), r) := hr
    cases hr
    rw [binaryResponse, if_neg (not_not.mpr hmagic), if_pos (show _ ∨ _ from hok)] at hpacket
    refine ⟨_, ?_, hpacket⟩
    exact ⟨hq.valid, hq.unread, hq.namespace_⟩
  refine ⟨fun hop => ?_, fun hop => ?_, fun hop hkey hroom => ?_, fun hop hne hroom => ?_⟩
  · rcases hop with hop | hop <;> simp only [Touch.binarySuccess, hop] at hpacket
    · exact binaryValue_fed hq (by omega) hpacket
    · obtain ⟨_, r, hr, hpacket⟩ := ensures_bind.mp hpacket
      have hr : (({ q.1 with cursorActive := _ }, q.2) : St (List InByte) × Footprint) = r :=
        congrArg Prod.snd (Option.some.inj hr)
      have hfed' : Fed r.1 n := by
        rw [← hr]
        exact ⟨hq.valid, hq.unread, hq.namespace_⟩
      exact binaryValue_fed hfed' (by omega) hpacket
  · simp only [Touch.binarySuccess, hop] at hpacket
    have hroom := (readPart_fed hq (by omega) (fun _ => Adds.lift.bind fun _ => .ite .code .pure) hpacket).1
    omega
  · have hguard : ¬((Header.ofBytes bytes).keylen ≠ 0 ∨
        bufferLength < ((Header.ofBytes bytes).bodylen + 1) % 2 ^ 32) := by omega
    simp only [Touch.binarySuccess, hop, if_neg hguard] at hpacket
    have hroom := (readPart_fed hq (by omega) (fun _ => .code) hpacket).1
    omega
  · exact stat_fed hq (by omega) ⟨hmagic, hok, hop, hne⟩ (Header.bodylen_lt _) hroom hpacket

/-- Packets stay in bounds just if they report no success, or the lengths of their headers fit. -/
theorem binary_response_in_bounds (bytes : Bytes) (h24 : bytes.length = headerLength) (bufferLength : Nat) :
    PacketInBounds bytes bufferLength ↔
      ((Header.ofBytes bytes).magic = 0x81 → (Header.ofBytes bytes).Succeeds →
        (Header.ofBytes bytes).Fits bufferLength) :=
  ⟨fun h hmagic hok => h.fits h24 hmagic hok, packetInBounds_of_fits⟩

/-- The header of an answer to `STAT`, with a key of one byte and a value of two. -/
theorem binary_response_in_bounds_stat :
    PacketInBounds [0x81, 0x10, 0, 1, 0, 0, 0, 0, 0, 0, 0, 3, 0, 0, 0, 0, 0, 0, 0, 0, 0, 0, 0, 0] 5 :=
  (binary_response_in_bounds _ rfl 5).mpr fun _ _ =>
    ⟨by decide, by decide, by decide, by decide⟩

/-- The header of an answer to `VERSION` with a body of 33 bytes: the last one is written behind the
buffer. -/
theorem binary_response_out_of_bounds :
    ¬PacketInBounds [0x81, 0x0b, 0, 0, 0, 0, 0, 0, 0, 0, 0, 33, 0, 0, 0, 0, 0, 0, 0, 0, 0, 0, 0, 0] 1024 := by
  intro h
  have hle := (h.fits rfl (by decide) (by decide)).version (by decide)
  exact absurd hle (by decide)

end LM
