import LibMemcached.Impl.AsciiHandler

/-!
# The input side of the server library

`handler.c`: `determine_protocol` and `memcached_protocol_client_work`, which read what `recv`
returns into the input buffer, hand it to the protocol and keep what is left for the next call. The
input buffer belongs to all clients of an instance, so its content before a `recv` is arbitrary. The
output side is in `LibMemcached.Impl.Output`; draining it is taken to succeed here.
-/

namespace LM

variable {σ : Type}

/-- A result of `recv`: the data, what the input buffer held before, and the bytes at the place an
uninitialised pointer points to. -/
structure Recv where
  data : Bytes
  stale : Bytes
  wild : Nat → UInt8

/-- What `recv` may return. -/
inductive Input where
  | data (recv : Recv)
  | closed
  | wouldBlock
  | error

/-- `work`, once the protocol is known. -/
inductive Protocol where
  | binary | ascii
  deriving DecidableEq

/-- An application and its library instance. -/
structure Service (σ : Type) where
  callbacks : Callbacks σ
  unknown : Option (RawCallback σ) := none

/-- `memcached_protocol_client_st`, the input side. -/
structure ServerClient (σ : Type) where
  /-- Without a protocol `work` is `determine_protocol`. -/
  work : Option Protocol := none
  /-- The bytes that were kept; `input_buffer_offset` is their number. -/
  inputBuffer : Bytes := []
  serving : Serving σ

/-- `determine_protocol`. -/
def determineProtocol (service : Service σ) (buffer : Bytes) : Option Protocol :=
  if buffer.getD 0 0 = binaryReq then some .binary
  else
    match service.callbacks with
    | .v1 _ => some .ascii
    | .v0 _ => none

/-- The call of `work`, and the protocol it is set to. -/
def callWork (service : Service σ) (c : ServerClient σ) (buffer : Bytes) (length : Nat) :
    Option Protocol × Worked σ :=
  let protocol :=
    match c.work with
    | some protocol => some protocol
    | none => determineProtocol service buffer
  match protocol, service.callbacks with
  | some .binary, callbacks =>
    (some .binary,
      binaryProcessData (executeCommand callbacks service.unknown) buffer length c.serving)
  | some .ascii, .v1 I => (some .ascii, asciiProcessData I buffer length c.serving)
  | _, _ =>
    (none, ⟨.error, buffer, length, none,
      asciiRawResponseHandler "CLIENT_ERROR: Unsupported protocol\r\n" c.serving⟩)

/-- The bytes that are left, which are kept. -/
def Worked.leftover (w : Worked σ) (wild : Nat → UInt8) : Bytes :=
  match w.endptr with
  | some endptr => slice w.buffer endptr w.length
  | none => (List.range w.length).map wild

/-- The input buffer once `recv` wrote behind the bytes that were kept, and these were copied back. -/
def filledBuffer (kept : Bytes) (recv : Recv) : Bytes :=
  kept ++ recv.data ++ recv.stale.drop (kept.length + recv.data.length)

/-- One round of `memcached_protocol_client_work` in which `recv` returned data. -/
def receive (service : Service σ) (recv : Recv) (c : ServerClient σ) : Event × ServerClient σ :=
  let length := recv.data.length + c.inputBuffer.length
  let (protocol, w) := callWork service c (filledBuffer c.inputBuffer recv) length
  let c := { c with work := protocol, serving := w.serving, inputBuffer := [] }
  match w.event with
  | .error => (.error, c)
  | .undefined => (.undefined, c)
  | _ => (.read, { c with inputBuffer := if w.length = 0 then [] else w.leftover recv.wild })

/-- `memcached_protocol_client_work`: the event, the results of `recv` that were not used, and the
client. Without further results `recv` would block. -/
def clientWork (service : Service σ) :
    List Input → ServerClient σ → Event × List Input × ServerClient σ
  | [], c => (.read, [], c)
  | .data recv :: rs, c =>
    match receive service recv c with
    | (.read, c) => if c.inputBuffer = [] then clientWork service rs c else (.read, rs, c)
    | (event, c) => (event, rs, c)
  | .wouldBlock :: rs, c => (.read, rs, c)
  | .closed :: rs, c => (.error, rs, c)
  | .error :: rs, c => (.error, rs, c)

/-- The application calls `memcached_protocol_client_work` again while there is something to read
and the connection is not to be shut down. Each call uses at least one result. -/
def serveFor (service : Service σ) :
    Nat → List Input → ServerClient σ → Event × ServerClient σ
  | 0, _, c => (.read, c)
  | _ + 1, [], c => (.read, c)
  | fuel + 1, r :: rs, c =>
    match clientWork service (r :: rs) c with
    | (.read, rest, c) => serveFor service fuel rest c
    | (event, _, c) => (event, c)

/-- The calls for a list of results. -/
def serve (service : Service σ) (rs : List Input) (c : ServerClient σ) :
    Event × ServerClient σ :=
  serveFor service rs.length rs c

end LM
