import LibMemcached.Framework.Run
import LibMemcached.Impl.Output

/-!
# What is sent is what was spooled

The chunks of the output queue stand for the bytes that are still to be sent (`Output.waiting`).
Draining moves bytes from there to the bytes `send` has accepted, so what was handed over is always
what was accepted followed by what waits (`Spooler.InOrder`), as long as spooling appends.

`spool_output` does not always append. It copies from the start of its data in every round, and it
begins at the first chunk of the list, not at the last; and `binary_raw_response_handler` spools from
the start of a response of which a part was sent. `Output.Takes` and `Output.TakesRaw` say when none
of this shows: the data fits into the chunk that is filled, that chunk is the last one, and a direct
send is taken as a whole or not at all.
-/

namespace LM

open List

variable {response : Bytes}

/-- `send` accepts something, would block, or was interrupted. -/
def SendResult.Regular : SendResult → Prop
  | .sent _ | .error .eagain | .error .eintr => True
  | .error _ => False

namespace Output

/-- The bytes that are still to be sent. -/
def waiting (out : Output) : Bytes := (out.chunks.map Chunk.rest).flatten

/-- The data fits into the chunk that `spool_output` fills first, and that chunk is the last. -/
def Takes (out : Output) (data : Bytes) : Prop :=
  data = [] ∨
    match out.chunks with
    | [] => data.length ≤ chunkBufferSize
    | chunk :: next =>
      if chunk.nbytes = chunkBufferSize then data.length ≤ chunkBufferSize
      else next = [] ∧ chunk.nbytes + data.length ≤ chunkBufferSize

/-- What `send` accepts of a response that is sent directly. -/
def sentDirectly (response : Bytes) (direct : List SendResult) : Nat :=
  ((sendDirectly response direct 0 {}).1.getD 0)

/-- After the drain the response is spooled as `Takes` says, or it is sent directly as a whole, or
nothing of it is. -/
def TakesRaw (out : Output) (response : Bytes) (drained direct : List SendResult) : Prop :=
  let out := (drainOutput drained out).2
  (out.chunks = [] ∧ sentDirectly response direct = response.length) ∨
    ((out.chunks = [] → sentDirectly response direct = 0) ∧ out.Takes response)

/-- Not more was sent of a chunk than is in it. -/
def Sound (out : Output) : Prop := ∀ chunk ∈ out.chunks, chunk.offset ≤ chunk.nbytes

variable {out : Output} {results : List SendResult}

/-- Draining only moves bytes from the queue to the socket. -/
theorem drainOutput_moves (hr : ∀ r ∈ results, r.Regular) (hs : out.Sound) :
    ∃ out', drainOutput results out = (true, out') ∧ out'.Sound ∧ out'.mute = out.mute ∧
      out'.accepted ++ out'.waiting = out.accepted ++ out.waiting := by
  induction results generalizing out with
  | nil => exact ⟨out, rfl, hs, rfl, rfl⟩
  | cons r rs ih =>
    have hrs : ∀ r ∈ rs, r.Regular := fun r h => hr r (mem_cons_of_mem _ h)
    rw [drainOutput]
    cases hc : out.chunks with
    | nil => exact ⟨out, rfl, hs, rfl, rfl⟩
    | cons chunk next =>
      cases r with
      | error e =>
        cases e with
        | eagain => exact ⟨out, rfl, hs, rfl, rfl⟩
        | eintr => exact ih hrs hs
        | _ => exact absurd (hr _ mem_cons_self) id
      | sent n =>
        have hchunk : chunk.offset ≤ chunk.nbytes := hs chunk (by simp [hc])
        have hnext : ∀ c ∈ next, c.offset ≤ c.nbytes := fun c h => hs c (by simp [hc, h])
        have hrest : chunk.rest.length = chunk.nbytes - chunk.offset := length_drop ..
        have hdrop : (chunk.data.drop (chunk.offset + min n chunk.rest.length)) =
            chunk.rest.drop (min n chunk.rest.length) := drop_drop.symm
        -- The bytes accepted now come off the front of the first chunk.
        have hwait : out.waiting = chunk.rest.take (min n chunk.rest.length) ++
            (chunk.rest.drop (min n chunk.rest.length) ++ (next.map Chunk.rest).flatten) := by
          rw [← append_assoc, take_append_drop, waiting, hc, map_cons, flatten_cons]
        have hs₁ : Sound { out with
            accepted := out.accepted ++ chunk.rest.take (min n chunk.rest.length),
            chunks := if chunk.offset + min n chunk.rest.length = chunk.nbytes then next
              else ⟨chunk.data, chunk.offset + min n chunk.rest.length⟩ :: next } := by
          intro c hmem
          simp only at hmem
          split at hmem
          · exact hnext c hmem
          · rcases mem_cons.mp hmem with rfl | hmem
            · show chunk.offset + _ ≤ chunk.nbytes
              omega
            · exact hnext c hmem
        obtain ⟨out', hdrain, hs', hmute, hmoves⟩ := ih hrs hs₁
        refine ⟨out', hdrain, hs', hmute, hmoves.trans ?_⟩
        rw [hwait, append_assoc]
        congr 2
        rw [waiting]
        simp only
        split
        · rename_i hall
          rw [← hdrop, hall, Chunk.nbytes, drop_length, nil_append]
        · rw [map_cons, flatten_cons, Chunk.rest, hdrop]

theorem sendDirectly_accepts (hr : ∀ r ∈ results, r.Regular) {offset : Nat} (ho : offset ≤ response.length) :
    ∃ n, offset + n ≤ response.length ∧ ∀ out, sendDirectly response results offset out =
      (some (offset + n), { out with accepted := out.accepted ++ (response.drop offset).take n }) := by
  induction results generalizing offset with
  | nil => exact ⟨0, ho, fun out => by simp [sendDirectly]⟩
  | cons r rs ih =>
    have hrs : ∀ r ∈ rs, r.Regular := fun r h => hr r (mem_cons_of_mem _ h)
    cases r with
    | error e =>
      cases e with
      | eagain => exact ⟨0, ho, fun out => by simp [sendDirectly]⟩
      | eintr => exact ih hrs ho
      | _ => exact absurd (hr _ mem_cons_self) id
    | sent n =>
      have hn : offset + min n (response.length - offset) ≤ response.length := by omega
      by_cases hmore : offset + min n (response.length - offset) < response.length
      · obtain ⟨m, hm, hsend⟩ := ih hrs hn
        refine ⟨min n (response.length - offset) + m, by omega, fun out => ?_⟩
        rw [sendDirectly, if_pos hmore, hsend, append_assoc, ← drop_drop, ← take_add, Nat.add_assoc]
      · exact ⟨min n (response.length - offset), hn, fun out => by rw [sendDirectly, if_neg hmore]⟩

theorem modify_last {α : Type} (front : List α) (last : α) (f : α → α) :
    (front ++ [last]).modify front.length f = front ++ [f last] := by
  induction front with
  | nil => rfl
  | cons a front ih => simp [ih]

/-- One round copies all the data into the last chunk, if there is room in it. -/
theorem spoolLoop_once {data : Bytes} {front : List Chunk} {last : Chunk} {out' : Output}
    {x : Option Nat} (hfill : out.chunkToFill x = (front.length, out'))
    (hchunks : out'.chunks = front ++ [last]) (hroom : last.nbytes + data.length ≤ chunkBufferSize)
    (hd : data ≠ []) :
    spoolLoop data data.length 0 x out =
      { out' with chunks := front ++ [{ last with data := last.data ++ data }] } := by
  have hpos := length_pos_iff.mpr hd
  have hlast : out'.chunks.getD front.length ⟨[], 0⟩ = last := by simp [hchunks]
  have hbulk : min (data.length - 0) (chunkBufferSize - last.nbytes) = data.length := by omega
  have hend (fuel : Nat) (chunk : Option Nat) (out : Output) :
      spoolLoop data fuel (0 + data.length) chunk out = out := by
    cases fuel with
    | zero => rfl
    | succ fuel => rw [spoolLoop, if_neg (by omega)]
  have hround (fuel : Nat) : spoolLoop data (fuel + 1) 0 x out =
      { out' with chunks := front ++ [{ last with data := last.data ++ data }] } := by
    rw [spoolLoop, if_pos hpos, hfill]
    simp only [hlast, hbulk, take_length]
    rw [hend, hchunks, modify_last]
  have := hround (data.length - 1)
  rwa [Nat.sub_add_cancel hpos] at this

theorem spoolOutput_nil (out : Output) : spoolOutput [] out = out := by
  rw [spoolOutput]
  split <;> rfl

/-- Data that the chunk to fill has room for is appended to the queue. -/
theorem spoolOutput_appends {data : Bytes} (ht : out.Takes data) (hs : out.Sound)
    (hm : out.mute = false) : (spoolOutput data out).waiting = out.waiting ++ data ∧
      (spoolOutput data out).accepted = out.accepted ∧ (spoolOutput data out).Sound ∧
      (spoolOutput data out).mute = false := by
  have hspool : spoolOutput data out = spoolLoop data data.length 0
      (if out.chunks = [] then none else some 0) out := by
    rw [spoolOutput, if_neg (by simp [hm])]
  by_cases hd : data = []
  · subst hd
    rw [spoolOutput_nil]
    exact ⟨(append_nil _).symm, rfl, hs, hm⟩
  · replace ht := ht.resolve_left hd
    -- Data goes into a new chunk at the end of the list.
    have hnew {x : Option Nat} (hlen : data.length ≤ chunkBufferSize)
        (hfill : out.chunkToFill x = (out.chunks.length, out.allocateOutputChunk)) :
        spoolLoop data data.length 0 x out = { out with chunks := out.chunks ++ [⟨data, 0⟩] } :=
      spoolLoop_once hfill rfl (by simpa [Chunk.nbytes] using hlen) hd
    have hnewOk : waiting { out with chunks := out.chunks ++ [⟨data, 0⟩] } = out.waiting ++ data ∧
        Sound { out with chunks := out.chunks ++ [⟨data, 0⟩] } := by
      refine ⟨by simp [waiting, Chunk.rest], fun c hc => ?_⟩
      rcases mem_append.mp hc with hc | hc
      · exact hs c hc
      · rw [mem_singleton.mp hc]
        exact Nat.zero_le _
    cases hc : out.chunks with
    | nil =>
      rw [hc] at ht
      rw [hspool, if_pos hc, hnew ht rfl]
      exact ⟨hnewOk.1, rfl, hnewOk.2, hm⟩
    | cons chunk next =>
      rw [hc] at ht
      simp only at ht
      rw [hspool, if_neg (by simp [hc])]
      split at ht
      · rename_i hfull
        rw [hnew ht (by simp [chunkToFill, hc, hfull])]
        exact ⟨hnewOk.1, rfl, hnewOk.2, hm⟩
      · rename_i hfree
        obtain ⟨rfl, hlen⟩ := ht
        have honce : spoolLoop data data.length 0 (some 0) out =
            { out with chunks := [⟨chunk.data ++ data, chunk.offset⟩] } :=
          @spoolLoop_once _ data [] _ _ _ (by simp [chunkToFill, hc, hfree]) hc hlen hd
        have hchunk : chunk.offset ≤ chunk.nbytes := hs chunk (by simp [hc])
        rw [honce]
        refine ⟨?_, rfl, ?_, hm⟩
        · simp only [waiting, hc, Chunk.rest, map_cons, map_nil, flatten_cons, flatten_nil, append_nil]
          exact drop_append_of_le_length hchunk
        · intro c hmem
          rw [mem_singleton.mp hmem]
          show chunk.offset ≤ (chunk.data ++ data).length
          rw [length_append]
          exact Nat.le_add_right_of_le hchunk

/-- A response that is taken as `TakesRaw` says is appended to what was handed over before it. -/
theorem binaryRawResponseHandler_appends {drained direct : List SendResult} (hd : ∀ r ∈ drained, r.Regular)
    (hr : ∀ r ∈ direct, r.Regular) (hs : out.Sound) (hm : out.mute = false)
    (ht : out.TakesRaw response drained direct) :
    ∃ out', binaryRawResponseHandler (some response) drained direct out = (true, out') ∧
      out'.Sound ∧ out'.mute = false ∧
      out'.accepted ++ out'.waiting = out.accepted ++ out.waiting ++ response := by
  obtain ⟨out₁, hdrain, hs₁, hmute, hmoves⟩ := drainOutput_moves hd hs
  have hm₁ : out₁.mute = false := hmute.trans hm
  obtain ⟨n, hn, hsend⟩ := sendDirectly_accepts hr (Nat.zero_le response.length)
  have hdirect : sentDirectly response direct = n := by simp [sentDirectly, hsend]
  simp only [TakesRaw, hdrain, hdirect] at ht
  simp only [binaryRawResponseHandler, hdrain]
  -- Nothing of the response is sent directly: all of it is spooled.
  have hall (htakes : out₁.Takes response) : (spoolOutput (response.take response.length) out₁).Sound ∧
      (spoolOutput (response.take response.length) out₁).mute = false ∧
      (spoolOutput (response.take response.length) out₁).accepted ++
        (spoolOutput (response.take response.length) out₁).waiting =
          out.accepted ++ out.waiting ++ response := by
    rw [take_length]
    obtain ⟨hwait, hacc, hsound, hmute'⟩ := spoolOutput_appends htakes hs₁ hm₁
    exact ⟨hsound, hmute', by rw [hwait, hacc, ← append_assoc, hmoves]⟩
  rcases ht with ⟨hempty, rfl⟩ | ⟨hnone, htakes⟩
  · rw [if_pos hempty, hsend]
    simp only [Nat.zero_add, Nat.sub_self, take_zero, drop_zero, take_length, spoolOutput_nil]
    have hnil : out₁.waiting = [] := by simp [waiting, hempty]
    refine ⟨_, rfl, hs₁, hm₁, ?_⟩
    show out₁.accepted ++ response ++ out₁.waiting = _
    rw [← hmoves, hnil, append_nil, append_nil]
  · by_cases hempty : out₁.chunks = []
    · obtain rfl := hnone hempty
      rw [if_pos hempty, hsend]
      simp only [Nat.add_zero, Nat.sub_zero, take_zero, append_nil]
      exact ⟨_, rfl, hall htakes⟩
    · rw [if_neg hempty]
      exact ⟨_, rfl, hall htakes⟩

end Output

/-! ## Runs -/

/-- `send` never reports an error but the two that only delay. -/
def OutputCall.Regular : OutputCall → Prop
  | .spool _ => True
  | .raw _ drained direct => (∀ r ∈ drained, r.Regular) ∧ ∀ r ∈ direct, r.Regular
  | .drain results => ∀ r ∈ results, r.Regular

/-- The data of a call is put where it belongs. -/
def Spooler.Takes (s : Spooler) : OutputCall → Prop
  | .spool data => s.out.Takes data
  | .raw (some response) drained direct => s.out.TakesRaw response drained direct
  | .raw none _ _ | .drain _ => True

/-- What was handed over is what was accepted and what waits. -/
structure Spooler.InOrder (s : Spooler) : Prop where
  sound : s.out.Sound
  mute : s.out.mute = false
  handed : s.handed = s.out.accepted ++ s.out.waiting

theorem Spooler.InOrder.step {s : Spooler} (h : s.InOrder) {call : OutputCall} (hr : call.Regular)
    (ht : s.Takes call) : (s.step call).InOrder := by
  cases call with
  | spool data =>
    obtain ⟨hwait, hacc, hsound, hmute⟩ := Output.spoolOutput_appends ht h.sound h.mute
    refine ⟨hsound, hmute, ?_⟩
    show s.handed ++ data = _
    rw [Spooler.step, hwait, hacc, h.handed, append_assoc]
  | drain results =>
    obtain ⟨out, hdrain, hsound, hmute, hmoves⟩ := Output.drainOutput_moves hr h.sound
    rw [Spooler.step, hdrain]
    exact ⟨hsound, hmute.trans h.mute, h.handed.trans hmoves.symm⟩
  | raw response drained direct =>
    cases response with
    | none =>
      obtain ⟨out, hdrain, hsound, hmute, hmoves⟩ := Output.drainOutput_moves hr.1 h.sound
      simp only [Spooler.step, Output.binaryRawResponseHandler, hdrain, Option.getD_none, append_nil]
      exact ⟨hsound, hmute.trans h.mute, h.handed.trans hmoves.symm⟩
    | some response =>
      obtain ⟨out, hraw, hsound, hmute, happ⟩ :=
        Output.binaryRawResponseHandler_appends hr.1 hr.2 h.sound h.mute ht
      rw [Spooler.step, hraw]
      exact ⟨hsound, hmute, by rw [happ, ← h.handed]; rfl⟩

/-- The bytes `send` accepts are the first of the response data in the order it was handed over, and
all of it once the queue is empty, if all data is put where it belongs. -/
theorem sent_as_spooled (calls : List OutputCall) (hr : ∀ call ∈ calls, call.Regular)
    (ht : Guarded Spooler.step Spooler.Takes {} calls) :
    (runFrom Spooler.step {} calls).out.accepted <+: (runFrom Spooler.step {} calls).handed ∧
      ((runFrom Spooler.step {} calls).out.chunks = [] →
        (runFrom Spooler.step {} calls).out.accepted = (runFrom Spooler.step {} calls).handed) := by
  have hinv : (runFrom Spooler.step {} calls).InOrder :=
    (ht.and hr).invariant (fun _ _ h hok => h.step hok.1 hok.2) ⟨fun _ h => absurd h not_mem_nil, rfl, rfl⟩
  refine ⟨⟨_, hinv.handed.symm⟩, fun hempty => ?_⟩
  rw [hinv.handed, Output.waiting, hempty]
  exact (append_nil _).symm

/-- Two bytes are spooled and one of them is sent, then a response goes out directly. -/
def shortCalls : List OutputCall :=
  [.spool [97, 98], .drain [.sent 1], .raw (some [99]) [.error .eintr, .sent 1] [.sent 1]]

theorem sent_as_spooled_shortCalls :
    (runFrom Spooler.step {} shortCalls).out.accepted <+: (runFrom Spooler.step {} shortCalls).handed ∧
      ((runFrom Spooler.step {} shortCalls).out.chunks = [] →
        (runFrom Spooler.step {} shortCalls).out.accepted =
          (runFrom Spooler.step {} shortCalls).handed) :=
  sent_as_spooled shortCalls
    (by simp [shortCalls, OutputCall.Regular, SendResult.Regular])
    ⟨.inr (show ([97, 98] : Bytes).length ≤ chunkBufferSize by decide), trivial,
      .inl ⟨by decide, by decide⟩, trivial⟩

/-- The three ways to spoil the order. A response of two bytes of which one is sent directly is
spooled from its start; of data that does not fit into a chunk the first bytes are spooled again; and
data is spooled in front of other data, into a first chunk that has room. -/
theorem spool_out_of_order :
    ((runFrom Spooler.step {} [.raw (some [97, 98]) [] [.sent 1], .drain [.sent 1]]).out.chunks = [] ∧
      (runFrom Spooler.step {} [.raw (some [97, 98]) [] [.sent 1], .drain [.sent 1]]).out.accepted =
        [97, 97]) ∧
    (runFrom Spooler.step {} [.spool (List.replicate 2048 97 ++ [98]),
        .drain [.sent 2048, .sent 1]]).out.accepted = List.replicate 2049 97 ∧
    (runFrom Spooler.step {} [.spool (List.replicate 2048 97), .spool [98], .spool [99],
        .drain [.sent 2048], .spool [100], .drain [.sent 2, .sent 1]]).out.accepted =
      List.replicate 2048 97 ++ [98, 100, 99] := by
  decide +kernel

end LM
