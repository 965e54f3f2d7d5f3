import LibMemcached.Proof.Splitting
import LibMemcached.Proof.Values

/-!
# Binary responses keep the stream in step

`memcached_read_one_response` on a connection of the binary protocol takes one packet from the stream,
behind the errors of quiet commands that it throws away, or it closes the connection. What a packet
announces is taken whole, whatever the kernel does in between: the reads are followed on every kernel
(`Draws`), and a packet that is laid out as its opcode prescribes (`Response.LaidOut`) is taken to its
end (`binaryReadOneResponse_draws`). The count of outstanding answers goes down by one, and is kept for
`GETKQ`, whose end is the answer to the `NOOP` behind it; only an error that answers a `GETKQ` is counted
like any other (`response_in_step`).
-/

namespace LM

open List

variable {result : Result} {buffer : Bytes} {bufferLength : Nat}

variable {κ : Type} {K : Kernel κ} {rc : ReturnT} {s : St κ} {ns fuel : Nat} {rest : Bytes}

theorem bytesOf_append (cells cells' : List InByte) :
    bytesOf (cells ++ cells') = bytesOf cells ++ bytesOf cells' := map_append

/-! ## Reads on any kernel -/

namespace Draws

variable {s t : St κ} {cells : List InByte}

theorem of_memc {memc : Memcached} (h : SameSettings s.memc memc) : Draws s [] { s with memc := memc } :=
  ⟨(append_nil _).symm, Eq.refl _, Eq.refl _, h⟩

theorem recount (h : Draws s cells t) (count : Nat) :
    Draws { s with cursorActive := count } cells { t with cursorActive := count } :=
  ⟨h.consumed, h.valid, Eq.refl _, h.memc⟩

instance : Std.Refl (fun s t : St κ => Draws s [] t) := ⟨fun _ => .rfl⟩
instance : IsTrans (St κ) (fun s t => Draws s [] t) := ⟨fun _ _ _ => trans⟩

end Draws

theorem setError_draws (rc : ReturnT) (s : St κ) :
    Always (setError rc) s fun rc' s' => rc' = rc ∧ Draws s [] s' := by
  refine (Always.modify (Q := fun _ t => Draws s [] t) (.of_memc ?_)).bind fun _ _ ht => .pure ⟨rfl, ht⟩
  split
  · exact .errorSet _ _ _
  · exact .rfl

theorem memcachedSafeRead_draws (size : Nat) (s : St κ) : Always (memcachedSafeRead K size) s fun r s' =>
      r.1 = .success ∧ r.2.length = size ∧ Draws s r.2 s' ∨ r.1.isIoFailure = true := by
  exact (memcachedSafeRead_reads size s).always.mono fun r t h => h.1.imp (fun h => ⟨h.1, h.2.length, h.2.toDraws⟩) id

/-! ## Packets -/

/-- A response as it comes over the wire: a header, and as many bytes as it announces. -/
structure Response where
  head : Bytes
  body : Bytes
  length_head : head.length = headerLength
  magic : (Header.ofBytes head).magic = 0x81
  length_body : body.length = (Header.ofBytes head).bodylen

variable {r : Response}

namespace Response

def header (r : Response) : Header := Header.ofBytes r.head

def bytes (r : Response) : Bytes := r.head ++ r.body

end Response

namespace Header

/-- The response reports success or that authentication goes on. -/
def Succeeds (header : Header) : Prop := header.status = 0 ∨ header.status = authContinueStatus

instance (header : Header) : Decidable header.Succeeds := inferInstanceAs (Decidable (_ ∨ _))

/-- An error that answers a quiet command, and that is thrown away. -/
def Skipped (header : Header) : Prop :=
  ¬header.Succeeds ∧ header.bodylen ≠ 0 ∧ skipsError header.opcode = true

/-- An error that leaves the connection open: `KEY_ENOENT`, `KEY_EEXISTS`, `E2BIG` or `NOT_STORED`. -/
def Mild (header : Header) : Prop :=
  header.status = 1 ∨ header.status = 2 ∨ header.status = 3 ∨ header.status = 5

/-- What the protocol prescribes for a response that reports success, if the namespace of the client has
`ns` bytes. -/
def SuccessLayout (ns : Nat) (header : Header) : Option Opcode → Prop
  | some .getk | some .getkq =>
    header.extlen = 4 ∧ header.keylen ≤ 250 ∧ ns < header.keylen ∧ 4 + header.keylen ≤ header.bodylen
  | some .increment | some .decrement => header.bodylen = 8
  | some .version => header.bodylen ≤ 31
  | some .touch => header.bodylen = 0 ∨ header.bodylen = 4
  | some .set | some .add | some .replace | some .append | some .prepend | some .delete | some .flush
  | some .quit | some .noop => header.bodylen = 0
  | some .stat => header.keylen ≤ header.bodylen ∧ header.bodylen < 2 ^ 32 - 1
  | _ => False

/-- What the protocol prescribes for the opcode and the status of a response. An error may have any
body. -/
def LaidOut (ns : Nat) (header : Header) : Prop :=
  if header.status = 0 then header.SuccessLayout ns (Opcode.ofByte? header.opcode)
  else header.status ≠ authContinueStatus

/-- The count of outstanding answers after the response, if it was `count` before. -/
def countAfter (header : Header) (count : Nat) : Nat :=
  if header.Succeeds ∧ Opcode.ofByte? header.opcode = some .getkq then (count + 1) % 2 ^ 32 else count

end Header

/-! ## One packet -/

/-- A part of a packet is taken, or the packet is answered with a failure. -/
theorem readPart_draws {size : Nat} {onFail : Act κ Reply} {f : Bytes → Act κ Reply}
    {Q : Reply → St κ → Prop} (hfail : ∀ t, Always onFail t Q)
    (h : ∀ cells t, cells.length = size → Draws s cells t → Always (f (bytesOf cells)) t Q) :
    Always (readPart K size onFail f) s Q := by
  refine (memcachedSafeRead_draws size s).bind fun r t ht => .ite (fun hs => ?_) fun hs => hfail t
  obtain ⟨-, hlen, hd⟩ | hfail := ht
  · exact h r.2 t hlen hd
  · rw [hs] at hfail
    cases hfail

theorem binaryStatus_draws {status : Nat} (s : St κ) :
    Always (binaryStatus status) s fun rc s' => rc ≠ .fetchNotFinished ∧ Draws s [] s' := by
  unfold binaryStatus
  split
  all_goals first
    | exact .pure ⟨by decide, .rfl⟩
    | exact (setError_draws _ s).mono fun rc t ht => ⟨by rw [ht.1]; decide, ht.2⟩

theorem binaryStatus_fatal {header : Header} (hs : ¬header.Succeeds) (s : St κ) :
    Always (binaryStatus header.status) s fun rc _ => rc.isFatal = true ∨ header.Mild := by
  unfold binaryStatus Header.Mild
  split
  all_goals first
    | exact absurd (by assumption : header.status = 0) fun h => hs (.inl h)
    | exact absurd (by assumption : header.status = 0x21) fun h => hs (.inr h)
    | exact .pure (.inr (by omega))
    | exact .pure (.inl rfl)

theorem readVersion_draws {text : Bytes} (s : St κ) :
    Always (readVersion text) s fun rc s' => rc ≠ .fetchNotFinished ∧ Draws s [] s' := by
  have hchanges := readVersion_changes (R := fun s t : St κ => Draws s [] t)
    (fun s _ _ _ => ⟨(append_nil _).symm, rfl, rfl, .rfl⟩) (fun _ _ _ => .of_memc (.errorSet _ _ _)) text s
  refine hchanges.always.mono fun rc t h => ⟨?_, h.2⟩
  rcases h.1 with rfl | rfl <;> nofun

/-- The packet is not thrown away; the connection is closed, or the whole body was taken. -/
def BodyTaken (ns : Nat) (header : Header) (s : St κ) (reply : Reply) (s' : St κ) : Prop :=
  reply.rc ≠ .fetchNotFinished ∧ (reply.rc.isFatal = true ∨ ∃ cells : List InByte,
    (header.LaidOut ns → cells.length = header.bodylen) ∧ Draws s cells s')

section Body

variable {ns : Nat} {header : Header} {s t : St κ} {cells : List InByte}

theorem bodyTaken_fail (t : St κ) :
    Always (return ⟨.unknownReadFailure, buffer, result⟩) t fun reply s' => BodyTaken ns header s reply s' :=
  .pure ⟨by simp, .inl rfl⟩

section

variable (h : header.LaidOut ns → cells.length = header.bodylen) (hd : Draws s cells t)
include h hd

theorem bodyTaken_finish :
    Always (do let rc ← binaryStatus header.status; return ⟨rc, buffer, result⟩) t
      fun reply s' => BodyTaken ns header s reply s' := by
  refine (binaryStatus_draws t).bind fun rc u hu => .pure ⟨hu.1, .inr ⟨cells, h, ?_⟩⟩
  have htotal := hd.trans hu.2
  rwa [append_nil] at htotal

theorem bodyTaken_pure (hrc : rc ≠ .fetchNotFinished) :
    Always (return ⟨rc, buffer, result⟩) t fun reply s' => BodyTaken ns header s reply s' :=
  .pure ⟨hrc, .inr ⟨cells, h, hd⟩⟩

end

theorem bodyTaken_empty (h : header.LaidOut ns → header.bodylen = 0) (hrc : rc ≠ .fetchNotFinished) :
    Always (return ⟨rc, buffer, result⟩) s fun reply s' => BodyTaken ns header s reply s' :=
  .pure ⟨hrc, .inr ⟨[], fun hl => (h hl).symm, .rfl⟩⟩

theorem binaryValue_draws (buffer : Bytes) (hns : (s.memc.namespace_.getD []).length = ns)
    (hcode : header.LaidOut ns → header.extlen = 4 ∧ ns < header.keylen ∧
      4 + header.keylen ≤ header.bodylen) (hlt : header.bodylen < 2 ^ 32) :
    Always (binaryValue K header buffer) s fun reply s' => BodyTaken ns header s reply s' := by
  unfold binaryValue
  refine readPart_draws bodyTaken_fail fun flags t hflags ht => ?_
  refine readPart_draws bodyTaken_fail fun key u hkey hu => .get_bind ?_
  have hns' : (u.memc.namespace_.getD []).length = ns := by
    rw [hu.memc, ht.memc, ← hns]
  rw [hns']
  refine .ite (fun hshort => ?_) fun _ => ?_
  · refine (setError_draws _ u).bind fun rc v hv => ?_
    rw [hv.1]
    exact bodyTaken_fail v
  · refine readPart_draws bodyTaken_fail fun value v hvalue hv => ?_
    refine bodyTaken_finish (fun hlaid => ?_) ((ht.trans hu).trans hv)
    obtain ⟨hext, -, hbody⟩ := hcode hlaid
    simp only [length_append, hflags, hkey, hvalue, hext]
    omega

/-- The code for a response that reports success takes its whole body. -/
theorem binarySuccess_draws (hns : (s.memc.namespace_.getD []).length = ns) (hs : header.Succeeds)
    (hlt : header.bodylen < 2 ^ 32) :
    Always (binarySuccess K header bufferLength buffer result) s fun reply s' =>
      BodyTaken ns header { s with cursorActive := header.countAfter s.cursorActive } reply s' := by
  have hcount (h : Opcode.ofByte? header.opcode ≠ some .getkq) :
      ({ s with cursorActive := header.countAfter s.cursorActive } : St κ) = s := by
    rw [Header.countAfter, if_neg fun hk => h hk.2]
  have hlayout (hl : header.LaidOut ns) : header.SuccessLayout ns (Opcode.ofByte? header.opcode) := by
    unfold Header.LaidOut at hl
    split at hl
    · exact hl
    · next hne => exact absurd (hs.resolve_left hne) hl
  have hrefused (result : Result) : Always (do
      let rc ← setError .unknownReadFailure
      return ⟨rc, buffer, result⟩) s fun reply s' => BodyTaken ns header s reply s' := by
    refine (setError_draws _ s).bind fun rc t ht => ?_
    rw [ht.1]
    exact bodyTaken_fail t
  cases hop : Opcode.ofByte? header.opcode with
  | none =>
    rw [hcount (by simp [hop]), binarySuccess, hop]
    exact hrefused result
  | some opcode =>
    rw [hop] at hlayout
    by_cases hgetkq : opcode = .getkq
    · subst hgetkq
      rw [Header.countAfter, if_pos ⟨hs, hop⟩, binarySuccess, hop]
      refine (Always.modify (Q := fun _ t => t = { s with cursorActive := (s.cursorActive + 1) % 2 ^ 32 })
        rfl).bind fun _ t ht => ?_
      subst ht
      exact binaryValue_draws buffer hns (fun hl => ⟨(hlayout hl).1, (hlayout hl).2.2⟩) hlt
    · rw [hcount (by simpa [hop] using hgetkq), binarySuccess, hop]
      have hnumber : Always (if header.bodylen ≠ 8 then do
            let rc ← setError .unknownReadFailure
            return ⟨rc, buffer, { result with numericValue := 2 ^ 64 - 1 }⟩
          else readPart K 8 (return ⟨.unknownReadFailure, buffer, { result with numericValue := 2 ^ 64 - 1 }⟩)
            fun value => do
              let rc ← binaryStatus header.status
              return ⟨rc, buffer, { result with numericValue := bigEndian value }⟩) s
          fun reply s' => BodyTaken ns header s reply s' := by
        refine .ite (fun _ => hrefused _) fun height =>
          readPart_draws bodyTaken_fail fun value t hvalue ht => ?_
        exact bodyTaken_finish (fun _ => hvalue.trans (not_not.mp height).symm) ht
      have hsasl : Always (readPart K header.bodylen
          (return ⟨.unknownReadFailure, buffer, { itemCas := header.cas }⟩) fun value => do
            let rc ← binaryStatus header.status
            return ⟨rc, buffer, { itemCas := header.cas, value := value }⟩) s
          fun reply s' => BodyTaken ns header s reply s' :=
        readPart_draws bodyTaken_fail fun value t hvalue ht => bodyTaken_finish (fun _ => hvalue) ht
      cases opcode with
      | getkq => exact absurd rfl hgetkq
      | getk => exact binaryValue_draws buffer hns (fun hl => ⟨(hlayout hl).1, (hlayout hl).2.2⟩) hlt
      | increment | decrement => exact hnumber
      | saslListMechs =>
        refine .ite (fun _ => bodyTaken_fail s) fun _ => ?_
        exact readPart_draws bodyTaken_fail fun mechs t hmechs ht =>
          bodyTaken_finish (fun _ => hmechs) ht
      | version =>
        refine readPart_draws bodyTaken_fail fun text t htext ht => ?_
        refine (readVersion_draws t).bind fun rc u hu => ?_
        have htotal := ht.trans hu.2
        rw [append_nil] at htotal
        exact .ite (fun _ => bodyTaken_finish (fun _ => htext) htotal) fun _ =>
          bodyTaken_pure (fun _ => htext) htotal hu.1
      | touch =>
        have hread : Always (if header.bodylen = 4 then memcachedSafeRead K 4 else pure (.success, [])) s
            fun r t => r.1 = .success ∧ (header.LaidOut ns → r.2.length = header.bodylen) ∧ Draws s r.2 t ∨
              r.1.isIoFailure = true := by
          refine .ite (fun hfour => ?_) fun hother => .pure (.inl ⟨rfl, fun hl => ?_, .rfl⟩)
          · exact (memcachedSafeRead_draws 4 s).mono fun r t ht =>
              ht.imp (fun h => ⟨h.1, fun _ => h.2.1.trans hfour.symm, h.2.2⟩) id
          · exact ((hlayout hl).resolve_right hother).symm
        refine hread.bind fun r t ht => ?_
        obtain ⟨rc, cells⟩ := r
        refine (setError_draws rc t).bind fun rc' u hu => ?_
        obtain ⟨rfl, hu⟩ := hu
        obtain ⟨rfl, hlen, hd⟩ | hfail := ht
        · have htotal := hd.trans hu
          rw [append_nil] at htotal
          exact bodyTaken_pure hlen htotal (by decide)
        · refine .pure ⟨fun h => ?_, .inl (ReturnT.isFatal_of_isIoFailure hfail)⟩
          rw [show rc' = .fetchNotFinished from h] at hfail
          cases hfail
      | stat =>
        refine .ite (fun hempty => bodyTaken_empty (fun _ => hempty) (by decide)) fun _ =>
          .ite (fun _ => bodyTaken_fail s) fun _ => ?_
        refine readPart_draws bodyTaken_fail fun key t hkey ht => ?_
        refine readPart_draws bodyTaken_fail fun value u hvalue hu => ?_
        refine bodyTaken_finish (fun hl => ?_) (ht.trans hu)
        have hle := (hlayout hl).1
        rw [length_append, hkey, hvalue]
        omega
      | saslAuth | saslStep => exact hsasl
      | set | add | replace | append | prepend | delete | flush | quit | noop =>
        exact bodyTaken_empty hlayout (by decide)
      | _ => exact hrefused result

end Body

theorem Header.bodylen_lt (bytes : Bytes) : (Header.ofBytes bytes).bodylen < 2 ^ 32 := by
  refine Nat.lt_of_lt_of_le (bigEndian_lt _) ?_
  exact Nat.pow_le_pow_right (by decide) (length_take_le _ _)

/-- A whole packet was taken: a header and, if it is laid out as it should be, all that it announces. The
next packet is asked for after an error that is thrown away. -/
structure PacketTaken (ns : Nat) (s : St κ) (rc : ReturnT) (head body : List InByte) (s' : St κ) : Prop where
  length_head : head.length = headerLength
  skipped : rc = .fetchNotFinished ↔ (Header.ofBytes (bytesOf head)).Skipped
  error : ¬(Header.ofBytes (bytesOf head)).Succeeds →
    rc.isFatal = true ∨ (Header.ofBytes (bytesOf head)).Mild
  length_body : (Header.ofBytes (bytesOf head)).LaidOut ns →
    body.length = (Header.ofBytes (bytesOf head)).bodylen
  draws : Draws { s with cursorActive := (Header.ofBytes (bytesOf head)).countAfter s.cursorActive }
    (head ++ body) s'

/-- `binary_read_one_response` takes a whole packet, or fails. -/
theorem binaryReadOneResponse_draws (hns : (s.memc.namespace_.getD []).length = ns) :
    Always (binaryReadOneResponse K bufferLength buffer result) s fun reply s' =>
      reply.rc ≠ .fetchNotFinished ∧ reply.rc.isFatal = true ∨
        ∃ head body, PacketTaken ns s reply.rc head body s' := by
  refine (memcachedSafeRead_draws _ s).bind fun r t ht => ?_
  obtain ⟨rc, head⟩ := r
  obtain ⟨rfl, hlen, hd⟩ | hfail := ht
  · refine .ite (fun h => absurd rfl h) fun _ => ?_
    refine (Always.modify (Q := fun _ u => Draws s head u) ⟨hd.consumed, hd.valid, hd.cursorActive,
      hd.memc⟩).bind fun _ u hu => ?_
    have hlt := Header.bodylen_lt (bytesOf head)
    have hns' : (u.memc.namespace_.getD []).length = ns := by rw [hu.memc, ← hns]
    refine .ite (fun _ => ?_) fun _ => .ite (fun hsucceeds => ?_) fun hfails => ?_
    · refine (setError_draws _ u).bind fun rc v hv => ?_
      rw [hv.1]
      exact .pure (.inl ⟨by simp, rfl⟩)
    · refine (binarySuccess_draws hns' hsucceeds hlt).mono fun reply v hv => ?_
      obtain ⟨hfinished, hfatal | ⟨cells, hcells, hd'⟩⟩ := hv
      · exact .inl ⟨hfinished, hfatal⟩
      · refine .inr ⟨head, cells, hlen, ⟨fun h => absurd h hfinished, fun h => absurd hsucceeds h.1⟩,
          fun h => absurd hsucceeds h, hcells, ?_⟩
        rw [hu.cursorActive] at hd'
        exact (hu.recount _).trans hd'
    · have hcount : ({ s with
          cursorActive := (Header.ofBytes (bytesOf head)).countAfter s.cursorActive } : St κ) = s := by
        rw [Header.countAfter, if_neg fun h => hfails h.1]
      refine (drainBody_reads (Nat.le_refl _)).always.bind fun rc v hv => ?_
      obtain ⟨⟨rfl, cells, htaken⟩ | rfl, -⟩ := hv
      · refine .ite (fun h => absurd rfl h) fun _ => .ite (fun hskip => ?_) fun hskip => ?_
        · refine .pure (.inr ⟨head, cells, hlen, ⟨fun _ => ⟨hfails, hskip⟩, fun _ => rfl⟩,
            fun _ => .inl rfl, fun _ => htaken.length, ?_⟩)
          rw [hcount]
          exact hu.trans htaken.toDraws
        · refine ((binaryStatus_draws v).and (binaryStatus_fatal hfails v)).bind fun rc w hw =>
            .pure (.inr ⟨head, cells, hlen, ?_, fun _ => hw.2, fun _ => htaken.length, ?_⟩)
          · exact ⟨fun h => absurd h hw.1.1, fun h => absurd h.2 hskip⟩
          · have htotal := (hu.trans htaken.toDraws).trans hw.1.2
            rw [append_nil] at htotal
            rw [hcount]
            exact htotal
      · exact .ite (fun _ => .pure (.inl ⟨by simp, rfl⟩)) fun h => absurd (by simp) h
  · have hrc : rc ≠ .success := by
      rintro rfl
      cases hfail
    refine .ite (fun _ => .pure (.inl ⟨fun h => ?_, ReturnT.isFatal_of_isIoFailure hfail⟩)) fun h => absurd hrc h
    rw [show rc = .fetchNotFinished from h] at hfail
    cases hfail

/-! ## One response -/

/-- Both begin the same stream. -/
def Meets (a b : Bytes) : Prop := a <+: b ∨ b <+: a

theorem Meets.append {a b x y : Bytes} (hl : a.length = b.length) (h : Meets (a ++ x) (b ++ y)) :
    a = b ∧ Meets x y := by
  obtain ⟨rest, h⟩ | ⟨rest, h⟩ := h
  · rw [append_assoc] at h
    obtain ⟨hab, hxy⟩ := append_inj h hl
    exact ⟨hab, .inl ⟨rest, hxy⟩⟩
  · rw [append_assoc] at h
    obtain ⟨hab, hxy⟩ := append_inj h hl.symm
    exact ⟨hab.symm, .inr ⟨rest, hxy⟩⟩

theorem PacketTaken.meets {s' : St κ} {head body : List InByte} (h : PacketTaken ns s rc head body s')
    (hr : r.header.LaidOut ns) {x y : Bytes} (hm : Meets (bytesOf (head ++ body) ++ x) (r.bytes ++ y)) :
    bytesOf head = r.head ∧ bytesOf (head ++ body) = r.bytes ∧ Meets x y := by
  rw [bytesOf_append, Response.bytes, append_assoc, append_assoc] at hm
  obtain ⟨hhead, hm⟩ := hm.append (by rw [bytesOf, length_map, h.length_head, r.length_head])
  have hbody : (bytesOf body).length = r.body.length := by
    rw [bytesOf, length_map, r.length_body, ← hhead]
    refine h.length_body ?_
    rw [hhead]
    exact hr
  obtain ⟨hbody, hm⟩ := hm.append hbody
  exact ⟨hhead, by rw [bytesOf_append, hhead, hbody, Response.bytes], hm⟩

theorem Header.Skipped.laidOut {header : Header} (h : header.Skipped) (ns : Nat) : header.LaidOut ns := by
  unfold Header.LaidOut
  rw [if_neg fun h0 => h.1 (.inl h0)]
  exact fun hauth => h.1 (.inr hauth)

/-- The packets that are thrown away, and the response behind them. -/
def stream (skipped : List Response) (r : Response) : Bytes := skipped.flatMap Response.bytes ++ r.bytes

/-- The loop of `_read_one_response` takes exactly the packets to the first one that is not thrown
away. -/
theorem binaryReadLoop_draws (hns : (s.memc.namespace_.getD []).length = ns) {skipped : List Response}
    (hskipped : ∀ q ∈ skipped, q.header.Skipped) (hr : r.header.LaidOut ns) (hfinal : ¬r.header.Skipped) :
    Always (binaryReadLoop K bufferLength fuel buffer result) s fun reply s' =>
      reply.rc.isFatal = true ∨ s'.valid = s.valid ∧ ∃ cells, s'.consumed = s.consumed ++ cells ∧
        (Meets (bytesOf cells) (stream skipped r) → bytesOf cells = stream skipped r ∧
          s'.cursorActive = r.header.countAfter s.cursorActive ∧ (r.header.Succeeds ∨ r.header.Mild)) := by
  induction fuel generalizing buffer result s skipped with
  | zero => exact .failure
  | succ fuel ih =>
    refine (binaryReadOneResponse_draws hns).bind fun reply t ht => ?_
    obtain ⟨hfinished, hfatal⟩ | ⟨head, body, hp⟩ := ht
    · exact .ite (fun h => absurd h hfinished) fun _ => .pure (.inl hfatal)
    refine .ite (fun hmore => ?_) fun hend => .pure ?_
    · -- The packet is thrown away, and the loop goes on behind it.
      have hskip := hp.skipped.mp hmore
      have hns' : (t.memc.namespace_.getD []).length = ns := by rw [hp.draws.memc, ← hns]
      refine (ih hns' fun q hq => hskipped q (mem_of_mem_tail hq)).mono fun reply' u hu => hu.imp_right ?_
      rintro ⟨hvalid, cells, hcells, hmeets⟩
      refine ⟨hvalid.trans hp.draws.valid, head ++ body ++ cells, ?_, fun hm => ?_⟩
      · rw [hcells, hp.draws.consumed, append_assoc]
      rw [bytesOf_append] at hm ⊢
      cases skipped with
      | nil =>
        rw [stream, flatMap_nil, nil_append, ← append_nil r.bytes] at hm
        have hhead := (hp.meets hr hm).1
        rw [hhead] at hskip
        exact absurd hskip hfinal
      | cons q qs =>
        have hq := hskipped q mem_cons_self
        rw [stream, flatMap_cons, append_assoc] at hm ⊢
        obtain ⟨hhead, hpacket, hrest⟩ := hp.meets (hq.laidOut ns) hm
        obtain ⟨heq, hcursor, hcode⟩ := hmeets hrest
        refine ⟨by rw [hpacket, heq, stream, tail_cons], ?_, hcode⟩
        rw [hcursor, hp.draws.cursorActive]
        exact congrArg _ (if_neg fun h => hskip.1 h.1)
    · by_cases hfatal : reply.rc.isFatal = true
      · exact .inl hfatal
      refine .inr ⟨hp.draws.valid, _, hp.draws.consumed, fun hm => ?_⟩
      cases skipped with
      | nil =>
        rw [stream, flatMap_nil, nil_append, ← append_nil r.bytes, ← append_nil (bytesOf _)] at hm
        obtain ⟨hhead, hpacket, -⟩ := hp.meets hr hm
        have herror := hp.error
        rw [hhead] at herror
        refine ⟨by rw [hpacket, stream, flatMap_nil, nil_append], ?_, ?_⟩
        · rw [hp.draws.cursorActive, hhead]
          rfl
        · by_cases hs : r.header.Succeeds
          · exact .inl hs
          · exact .inr ((herror hs).resolve_left hfatal)
      | cons q qs =>
        have hq := hskipped q mem_cons_self
        rw [stream, flatMap_cons, append_assoc, ← append_nil (bytesOf _)] at hm
        have hhead := (hp.meets (hq.laidOut ns) hm).1
        refine absurd (hp.skipped.mpr ?_) hend
        rw [hhead]
        exact hq

/-- The connection is closed, and no answer is outstanding. -/
def Conn.Gone (c : Conn κ) : Prop := c.valid = false ∧ c.cursorActive = 0

/-- The response keeps the stream in step: whatever errors of quiet commands stand before it and whatever
the kernel does, `memcached_read_one_response` returns, and it has closed the connection or has taken
exactly these packets, one answer less is outstanding, and as many as before if it answers `GETKQ`. -/
def Response.InStep (ns : Nat) (r : Response) : Prop :=
  ∀ (κ : Type) (K : Kernel κ) (s : St κ) (buffer : Bytes) (result : Result) (skipped : List Response),
    s.memc.flags.binaryProtocol = true → (s.memc.namespace_.getD []).length = ns →
    0 < s.cursorActive → s.cursorActive < 2 ^ 32 → (∀ q ∈ skipped, q.header.Skipped) →
    Ensures (memcachedReadOneResponse K buffer result) s fun _ s' =>
      s'.toConn.Gone ∨ s'.valid = s.valid ∧ ∃ cells, s'.consumed = s.consumed ++ cells ∧
        (Meets (bytesOf cells) (stream skipped r) → bytesOf cells = stream skipped r ∧
          s'.cursorActive =
            if Opcode.ofByte? r.header.opcode = some .getkq then s.cursorActive else s.cursorActive - 1)

/-- An error that answers a `GETKQ` and leaves the connection open. -/
def Header.Uncounted (header : Header) : Prop :=
  Opcode.ofByte? header.opcode = some .getkq ∧ header.Mild

theorem Response.inStep_of_counted (hr : r.header.LaidOut ns) (hfinal : ¬r.header.Skipped)
    (hcounted : ¬r.header.Uncounted) : r.InStep ns := by
  intro κ K s buffer result skipped hbinary hns hpos hlt hskipped
  obtain ⟨reply, s', hrun, -⟩ := memcachedReadOneResponse_reads (K := K) buffer result s
  refine ⟨reply, s', hrun, ?_⟩
  revert hrun
  revert reply s'
  show Always (memcachedReadOneResponse K buffer result) s _
  refine (Always.modify (Q := fun _ t => t = { s with cursorActive := s.cursorActive - 1 }) rfl).bind
    fun _ t ht => ?_
  subst ht
  refine .get_bind ?_
  dsimp only
  rw [if_pos hbinary]
  refine (binaryReadLoop_draws (s := { s with cursorActive := s.cursorActive - 1 }) hns hskipped hr
    hfinal).bind fun reply t ht => ?_
  by_cases hfatal : reply.rc.isFatal = true
  · rw [if_pos hfatal]
    exact (Always.modify (Q := fun _ u => u.toConn.Gone) ⟨rfl, rfl⟩).bind fun _ _ hu => .pure (.inl hu)
  · rw [if_neg hfatal]
    obtain ⟨hvalid, cells, hcells, hmeets⟩ := ht.resolve_left hfatal
    refine .pure (.inr ⟨hvalid, cells, hcells, fun hm => ?_⟩)
    obtain ⟨heq, hcursor, hcode⟩ := hmeets hm
    refine ⟨heq, hcursor.trans ?_⟩
    unfold Header.countAfter
    by_cases hgetkq : Opcode.ofByte? r.header.opcode = some .getkq
    · have hs : r.header.Succeeds := hcode.resolve_right fun hmild => hcounted ⟨hgetkq, hmild⟩
      rw [if_pos ⟨hs, hgetkq⟩, if_pos hgetkq]
      show (s.cursorActive - 1 + 1) % 2 ^ 32 = s.cursorActive
      rw [Nat.sub_add_cancel hpos, Nat.mod_eq_of_lt hlt]
    · rw [if_neg fun h => hgetkq h.2, if_neg hgetkq]

section Fills

variable {pending : κ → List InByte} {P : Memcached → Prop} (hf : Fills K pending P) {s : St κ}
  (hv : s.valid = true) (hP : P s.memc)
include hf hv hP

/-- An error that is there to be read is thrown away whole. -/
theorem drainBody_fills {body : Bytes} (hu : bytesOf (s.unread pending) = body ++ rest)
    (hfuel : body.length ≤ fuel) : Ensures (drainBody K fuel body.length) s fun rc s' =>
      rc = .success ∧ Advance pending s body.length s' := by
  induction fuel generalizing body s with
  | zero =>
    obtain rfl : body = [] := length_eq_zero_iff.mp (Nat.le_zero.mp hfuel)
    exact ensures_pure.mpr ⟨rfl, .zero⟩
  | succ fuel ih =>
    cases hlen : body.length with
    | zero => exact ensures_pure.mpr ⟨rfl, .zero⟩
    | succ bodylen =>
      obtain ⟨n, hn⟩ : ∃ n, n = min (bodylen + 1) smallStringLen := ⟨_, rfl⟩
      have hpos : 0 < n := by
        rw [hn]
        exact Nat.lt_min.mpr ⟨Nat.succ_pos _, by decide⟩
      have htake : (body.take n).length = n := by
        rw [length_take, hlen]
        omega
      have hdrop : (body.drop n).length = bodylen + 1 - n := by rw [length_drop, hlen]
      have hsplit : bytesOf (s.unread pending) = body.take n ++ (body.drop n ++ rest) := by
        rw [← append_assoc, take_append_drop, hu]
      have hread := memcachedSafeRead_fills hf hv hP hsplit
      rw [htake] at hread
      simp only [drainBody, ← hn, ensures_bind]
      refine hread.mono fun r t ht => ?_
      obtain ⟨rc, cells⟩ := r
      obtain ⟨rfl, -, hadvance, hrest⟩ := ht
      simp only [if_true, ← hdrop]
      refine (ih (hadvance.valid.trans hv) (hadvance.memc ▸ hP) hrest (by omega)).mono fun rc u hu => ⟨hu.1, ?_⟩
      have htotal := hadvance.trans hu.2
      rwa [hdrop, Nat.add_sub_cancel' (by omega)] at htotal

/-- A mild error that answers no quiet command of storage is read, and the connection stays open. -/
theorem readOneResponse_mild (hbinary : s.memc.flags.binaryProtocol = true) (bufferLength : Nat)
    (buffer : Bytes) (result : Result) (hmild : r.header.Mild) (hskip : skipsError r.header.opcode = false)
    (hu : bytesOf (s.unread pending) = r.bytes ++ rest) :
    Ensures (readOneResponse K bufferLength buffer result) s fun _ s' =>
      s'.valid = true ∧ s'.cursorActive = s.cursorActive - 1 ∧
        bytesOf s'.consumed = bytesOf s.consumed ++ r.bytes := by
  rw [Response.bytes, append_assoc] at hu
  have hread := memcachedSafeRead_fills hf (s := { s with cursorActive := s.cursorActive - 1 }) hv hP hu
  rw [r.length_head] at hread
  have hsucceeds : ¬(r.header.status = 0 ∨ r.header.status = authContinueStatus) := by
    unfold Header.Mild at hmild
    unfold authContinueStatus
    omega
  have hcode : ∃ rc : ReturnT, (binaryStatus r.header.status : Act κ ReturnT) = pure rc ∧
      rc.isFatal = false ∧ rc ≠ .fetchNotFinished := by
    obtain h | h | h | h := hmild <;> rw [h] <;> exact ⟨_, rfl, rfl, by decide⟩
  obtain ⟨code, hcode, hmild, hfinished⟩ := hcode
  simp only [readOneResponse, responseDecrement, ensures_bind, ensures_modify, ensures_get, hbinary,
    if_true, binaryReadLoop, binaryReadOneResponse]
  refine hread.mono fun r' t ht => ?_
  obtain ⟨rc, cells⟩ := r'
  obtain ⟨rfl, hhead, hadvance, hrest⟩ := ht
  have hheader : Header.ofBytes (bytesOf cells) = r.header := congrArg Header.ofBytes hhead
  have hmagic : r.header.magic = 0x81 := r.magic
  have hbody : r.header.bodylen = r.body.length := r.length_body.symm
  have hdrain := drainBody_fills hf (s := { t with lastReply := cells }) (hadvance.valid.trans hv)
    (hadvance.memc ▸ hP) hrest (Nat.le_refl _)
  simp only [ne_eq, not_true, if_false, ensures_bind, ensures_modify, hheader, hmagic, if_neg hsucceeds, hbody]
  refine hdrain.mono fun rc u hdrained => ?_
  obtain ⟨rfl, hadvance'⟩ := hdrained
  simp only [not_true, if_false, hskip, Bool.false_eq_true, and_false, hcode, pure_bind, hfinished, hmild,
    ensures_pure]
  have hcursor : t.cursorActive = s.cursorActive - 1 := congrArg (·.cursorActive) hadvance.view
  have hcursor' : u.cursorActive = t.cursorActive := congrArg (·.cursorActive) hadvance'.view
  have hconsumed : t.consumed = s.consumed ++ (s.unread pending).take headerLength :=
    congrArg (·.consumed) hadvance.view
  have hconsumed' : u.consumed = t.consumed ++ (t.unread pending).take r.body.length :=
    congrArg (·.consumed) hadvance'.view
  have htake : bytesOf ((s.unread pending).take headerLength) = r.head := by
    rw [← r.length_head]
    exact bytesOf_take hu
  refine ⟨hadvance'.valid.trans (hadvance.valid.trans hv), hcursor'.trans hcursor, ?_⟩
  rw [hconsumed', hconsumed, append_assoc, bytesOf_append, bytesOf_append, htake, bytesOf_take hrest,
    Response.bytes]

end Fills

/-- A stream that begins with an error for a `GETKQ`: one answer less is counted as outstanding. -/
theorem Response.not_inStep_of_uncounted (h : r.header.Uncounted) : ¬r.InStep ns := by
  intro hstep
  let s : St (List InByte) :=
    { valid := true, cursorActive := 1, net := answerCells 0 r.bytes
      memc := { flags.binaryProtocol := true, namespace_ := some (List.replicate ns 0) } }
  have hskip : skipsError r.header.opcode = false := by
    rw [skipsError, h.1]
  have hcells : bytesOf (answerCells 0 r.bytes) = r.bytes := by
    simp [bytesOf, answerCells, Function.comp_def]
  have hu : bytesOf (s.unread id) = r.bytes ++ [] := by
    rw [append_nil]
    exact hcells
  obtain ⟨reply, s', hrun, hvalid, hcursor, hconsumed⟩ :=
    readOneResponse_mild (drip_delivers 0).toFeeds.fills (s := s) rfl trivial rfl smallStringLen [] {} h.2 hskip hu
  have hns : (s.memc.namespace_.getD []).length = ns := length_replicate
  obtain hgone | ⟨-, cells, hcells, hmeets⟩ :=
    (hstep _ (drip 0) s [] {} [] rfl hns Nat.one_pos (show 1 < 2 ^ 32 by decide) (by simp)).elim hrun
  · exact absurd (hvalid.symm.trans hgone.1) (by decide)
  · have hbytes : bytesOf cells = r.bytes := by
      rw [hcells] at hconsumed
      exact hconsumed
    have hcount := (hmeets (.inl (by rw [hbytes, stream]; exact prefix_rfl))).2
    rw [hcursor, if_pos h.1] at hcount
    exact absurd (show 0 = 1 from hcount) (by decide)

/-- A response that is laid out as the protocol prescribes keeps the stream in step, unless it is an error
for a `GETKQ` that leaves the connection open. -/
theorem response_in_step (ns : Nat) (r : Response) (hr : r.header.LaidOut ns)
    (hfinal : ¬r.header.Skipped) : r.InStep ns ↔ ¬r.header.Uncounted :=
  ⟨fun hstep h => Response.not_inStep_of_uncounted h hstep, Response.inStep_of_counted hr hfinal⟩

/-- A response without a body. -/
def Response.empty (opcode status : UInt8) : Response where
  head := [0x81, opcode] ++ List.replicate 5 0 ++ [status] ++ List.replicate 16 0
  body := []
  length_head := rfl
  magic := rfl
  length_body := rfl

theorem response_in_step_noop : (Response.empty Opcode.noop.toByte 0).InStep 0 := by
  have hlaid : (Response.empty Opcode.noop.toByte 0).header.LaidOut 0 := (rfl : (0 : Nat) = 0)
  exact (response_in_step 0 _ hlaid fun h => h.2.1 rfl).mpr fun h => absurd h.1 (by decide)

/-- `KEY_ENOENT` for a `GETKQ` is laid out as the protocol prescribes, and the answer to the `NOOP` is no
longer counted. -/
theorem response_out_of_step :
    let miss := Response.empty Opcode.getkq.toByte 1
    miss.header.LaidOut 0 ∧ ¬miss.header.Skipped ∧ ¬miss.InStep 0 ∧
      Ensures (memcachedReadOneResponse (drip 0) [] {})
        { arriving miss.bytes with cursorActive := 1, memc := { flags.binaryProtocol := true } }
        fun reply s' => reply.rc = .notFound ∧ s'.valid = true ∧ s'.cursorActive = 0 := by
  intro miss
  refine ⟨?_, fun h => h.2.1 rfl, ?_, by decide +kernel⟩
  · show (1 : Nat) ≠ 0x21
    decide
  · exact Response.not_inStep_of_uncounted ⟨rfl, .inl rfl⟩

end LM
