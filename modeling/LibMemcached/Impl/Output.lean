import LibMemcached.Impl.Net

/-!
# The output queue of the server library

`libmemcachedprotocol/handler.c`: the responses for a client are spooled into a linked list of chunks,
from which `drain_output` sends; `binary_raw_response_handler` of `binary_handler.c` sends directly
while the list is empty. What `send` returns is given as a list of results; when they are used up it
reports `EWOULDBLOCK`.
-/

namespace LM

/-- `CHUNK_BUFFERSIZE`. -/
def chunkBufferSize : Nat := 2048

/-- `chunk_st`: the first `nbytes` bytes of its buffer, of which `offset` were sent. -/
structure Chunk where
  data : Bytes
  offset : Nat
  deriving DecidableEq

/-- `nbytes`. -/
def Chunk.nbytes (chunk : Chunk) : Nat := chunk.data.length

/-- The bytes that are still to be sent. -/
def Chunk.rest (chunk : Chunk) : Bytes := chunk.data.drop chunk.offset

/-- The output side of `memcached_protocol_client_st`. -/
structure Output where
  /-- The list from `output` to `output_tail`. -/
  chunks : List Chunk := []
  mute : Bool := false
  error : Option Errno := none
  /-- The bytes `send` has accepted. No modelled function reads them. -/
  accepted : Bytes := []
  deriving DecidableEq

namespace Output

/-- `drain_output`: false if the connection is to be shut down. -/
def drainOutput : List SendResult → Output → Bool × Output
  | [], out => (true, out)
  | r :: rs, out =>
    match out.chunks with
    | [] => (true, out)
    | chunk :: next =>
      match r with
      | .error .eagain => (true, out)
      | .error .eintr => drainOutput rs out
      | .error e => (false, { out with error := some e })
      | .sent n =>
        let len := min n chunk.rest.length
        let out := { out with accepted := out.accepted ++ chunk.rest.take len }
        let chunk := { chunk with offset := chunk.offset + len }
        drainOutput rs
          { out with chunks := if chunk.offset = chunk.nbytes then next else chunk :: next }

/-- `allocate_output_chunk`: the new chunk is the last one. -/
def allocateOutputChunk (out : Output) : Output := { out with chunks := out.chunks ++ [⟨[], 0⟩] }

/-- The chunk `spool_output` copies into next: the one it is at, or a new one if that is full or
there is none. -/
def chunkToFill (out : Output) (chunk : Option Nat) : Nat × Output :=
  match chunk with
  | some x =>
    if (out.chunks.getD x ⟨[], 0⟩).nbytes = chunkBufferSize then
      (out.chunks.length, out.allocateOutputChunk)
    else (x, out)
  | none => (out.chunks.length, out.allocateOutputChunk)

/-- The loop of `spool_output`, at `offset` of the data. Each round copies from the start of the
data, and at least one byte, so there are at most as many rounds as bytes. -/
def spoolLoop (data : Bytes) : Nat → Nat → Option Nat → Output → Output
  | 0, _, _, out => out
  | fuel + 1, offset, chunk, out =>
    if offset < data.length then
      let (x, out) := out.chunkToFill chunk
      let bulk := min (data.length - offset) (chunkBufferSize - (out.chunks.getD x ⟨[], 0⟩).nbytes)
      let out := { out with
        chunks := out.chunks.modify x fun c => { c with data := c.data ++ data.take bulk } }
      spoolLoop data fuel (offset + bulk) (some x) out
    else out

/-- `spool_output`. It begins at the first chunk of the list. -/
def spoolOutput (data : Bytes) (out : Output) : Output :=
  if out.mute then out
  else spoolLoop data data.length 0 (if out.chunks = [] then none else some 0) out

/-- The direct sends of `binary_raw_response_handler`, from `offset` on: where they stopped, or
`none` if there was an error. -/
def sendDirectly (response : Bytes) : List SendResult → Nat → Output → Option Nat × Output
  | [], offset, out => (some offset, out)
  | r :: rs, offset, out =>
    match r with
    | .error .eagain => (some offset, out)
    | .error .eintr => sendDirectly response rs offset out
    | .error e => (none, { out with error := some e })
    | .sent n =>
      let nw := min n (response.length - offset)
      let out := { out with accepted := out.accepted ++ (response.drop offset).take nw }
      if offset + nw < response.length then sendDirectly response rs (offset + nw) out
      else (some (offset + nw), out)

/-- `binary_raw_response_handler`, without the pedantic check; false is `EINTERNAL`. What `send`
returns to the drain and to the direct sends is given apart. -/
def binaryRawResponseHandler (response : Option Bytes) (drained direct : List SendResult)
    (out : Output) : Bool × Output :=
  match drainOutput drained out with
  | (false, out) => (false, out)
  | (true, out) =>
    match response with
    | none => (true, out)
    | some response =>
      match if out.chunks = [] then sendDirectly response direct 0 out else (some 0, out) with
      | (none, out) => (false, out)
      | (some offset, out) => (true, spoolOutput (response.take (response.length - offset)) out)

end Output

/-! ## Runs -/

/-- A call on the output side of a client. -/
inductive OutputCall where
  | spool (data : Bytes)
  | raw (response : Option Bytes) (drained direct : List SendResult)
  | drain (results : List SendResult)

/-- The output side and the response data handed over so far. -/
structure Spooler where
  out : Output := {}
  handed : Bytes := []

/-- One call. -/
def Spooler.step (s : Spooler) : OutputCall → Spooler
  | .spool data => ⟨s.out.spoolOutput data, s.handed ++ data⟩
  | .raw response drained direct =>
    ⟨(s.out.binaryRawResponseHandler response drained direct).2, s.handed ++ response.getD []⟩
  | .drain results => ⟨(Output.drainOutput results s.out).2, s.handed⟩

end LM
