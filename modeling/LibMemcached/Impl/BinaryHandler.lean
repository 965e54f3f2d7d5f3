import LibMemcached.Impl.Callback

/-!
# Binary requests in the server library

`binary_handler.c`, without the pedantic checks and the verbose output: the response handlers, the
command handlers of version 1, `execute_command` and `memcached_binary_protocol_process_data`. A
request is given by the memory from its header on, which goes on after the packet: the command
handlers take the lengths in the header as they are. Sending and spooling are taken to succeed.
-/

namespace LM

/-- `protocol_binary_request_header`, in host byte order but for `opaque`. -/
structure RequestHeader where
  magic : UInt8
  opcode : UInt8
  keylen : Nat
  bodylen : Nat
  opaque_ : Bytes
  cas : Nat

/-- `len` bytes at an offset. -/
def slice (mem : Bytes) (offset len : Nat) : Bytes := (mem.drop offset).take len

def RequestHeader.ofBytes (mem : Bytes) : RequestHeader where
  magic := mem.getD 0 0
  opcode := mem.getD 1 0
  keylen := bigEndian (slice mem 2 2)
  bodylen := bigEndian (slice mem 8 4)
  opaque_ := slice mem 12 4
  cas := bigEndian (slice mem 16 8)

/-- The number of bytes of a packet. -/
def RequestHeader.total (r : RequestHeader) : Nat := headerLength + r.bodylen

/-- `PROTOCOL_BINARY_REQ`. -/
def binaryReq : UInt8 := 0x80

namespace Cmd

/-! The commands that `Opcode` does not have. -/

def get : UInt8 := 0x00

def getq : UInt8 := 0x09

def quitq : UInt8 := 0x17

end Cmd

variable {σ : Type}

/-! ## Responses -/

/-- `get_response_handler`. -/
def getResponseHandler (r : RequestHeader) (hit : Hit) : Packet :=
  let key := if r.opcode = Cmd.get ∨ r.opcode = Cmd.getq then [] else hit.key
  { opcode := r.opcode, keylen := key.length, extlen := 4, opaque_ := r.opaque_
    bodylen := hit.body.length + key.length + 4, cas := hit.cas.toNat
    body := toBigEndian 4 hit.flags.toNat ++ key ++ hit.body }

/-- `stat_response_handler`. -/
def statResponseHandler (r : RequestHeader) (entry : StatEntry) : Packet :=
  let key := entry.key.getD []
  { opcode := r.opcode, keylen := key.length, opaque_ := r.opaque_
    bodylen := entry.body.length + key.length, body := key ++ entry.body }

/-- `version_response_handler`. -/
def versionResponseHandler (r : RequestHeader) (text : Bytes) : Packet :=
  { opcode := r.opcode, opaque_ := r.opaque_, bodylen := text.length, body := text }

/-! ## Command handlers -/

/-- What a command handler returns, and the state it leaves. -/
abbrev Handled (σ : Type) : Type := Status × Serving σ

/-- The call of a command's callback. `handed` are the packets that its response handler makes, and
`positive` those that the command handler sends itself if it returns success. -/
def callHandler (I : Interface σ) (call : Invocation) (handed positive : Answer → List Packet)
    (s : Serving σ) : Handled σ :=
  if I.present call.callback then
    let a := (s.invoke I call).1
    let s := (s.invoke I call).2.respond (handed a)
    (a.status, if a.status = .success then s.respond (positive a) else s)
  else (.unknownCommand, s)

/-- The handlers that answer success with a packet unless the request is the quiet variant of the
command. -/
def loudHandler (I : Interface σ) (mem : Bytes) (opcode : Opcode) (call : Invocation)
    (response : Answer → Packet) (s : Serving σ) : Handled σ :=
  let r := RequestHeader.ofBytes mem
  callHandler I call (fun _ => []) (fun a => if r.opcode = opcode.toByte then [response a] else []) s

/-- The fields of the commands that store: key and data, after `extras` bytes. -/
def storedKey (mem : Bytes) (extras : Nat) : Bytes :=
  slice mem (headerLength + extras) (RequestHeader.ofBytes mem).keylen

def storedData (mem : Bytes) (extras : Nat) : Bytes :=
  let r := RequestHeader.ofBytes mem
  let datalen := (r.bodylen + 2 ^ 33 - r.keylen - extras) % 2 ^ 32
  slice mem (headerLength + extras + r.keylen) datalen

def storedFlags (mem : Bytes) : Nat := bigEndian (slice mem 24 4)

def storedExpiration (mem : Bytes) : Nat := bigEndian (slice mem 28 4)

/-- A positive response without a body. -/
def positiveResponse (mem : Bytes) (opcode : Opcode) (cas : UInt64) : Packet :=
  { opcode := opcode.toByte, opaque_ := (RequestHeader.ofBytes mem).opaque_, cas := cas.toNat }

/-- A positive response to an arithmetic command. The length of its extras and key is zero. -/
def valueResponse (mem : Bytes) (opcode : Opcode) (a : Answer) : Packet :=
  { opcode := opcode.toByte, opaque_ := (RequestHeader.ofBytes mem).opaque_, cas := a.resultCas.toNat
    bodylen := 8, body := toBigEndian 8 a.result.toNat }

def addCommandHandler (I : Interface σ) (mem : Bytes) : Serving σ → Handled σ :=
  loudHandler I mem .add
    (.add (storedKey mem 8) (storedData mem 8) (storedFlags mem) (storedExpiration mem))
    fun a => positiveResponse mem .add a.resultCas

def decrementCommandHandler (I : Interface σ) (mem : Bytes) : Serving σ → Handled σ :=
  loudHandler I mem .decrement
    (.decrement (storedKey mem 20) (bigEndian (slice mem 24 8)) (bigEndian (slice mem 32 8))
      (bigEndian (slice mem 40 4)))
    fun a => valueResponse mem .decrement a

def deleteCommandHandler (I : Interface σ) (mem : Bytes) : Serving σ → Handled σ :=
  loudHandler I mem .delete (.deleteObject (storedKey mem 0) (RequestHeader.ofBytes mem).cas)
    fun _ => positiveResponse mem .delete 0

def flushCommandHandler (I : Interface σ) (mem : Bytes) : Serving σ → Handled σ :=
  loudHandler I mem .flush
    (.flushObject (if (RequestHeader.ofBytes mem).bodylen = 4 then bigEndian (slice mem 24 4) else 0))
    fun _ => positiveResponse mem .flush 0

/-- `get_command_handler`. The quiet commands do not respond on a miss. -/
def getCommandHandler (I : Interface σ) (mem : Bytes) (s : Serving σ) : Handled σ :=
  let r := RequestHeader.ofBytes mem
  let (rval, s) := callHandler I (.get (storedKey mem 0))
    (fun a => a.hits.map (getResponseHandler r)) (fun _ => []) s
  if rval = .keyEnoent ∧ (r.opcode = Cmd.getq ∨ r.opcode = Opcode.getkq.toByte) then (.success, s)
  else (rval, s)

def incrementCommandHandler (I : Interface σ) (mem : Bytes) : Serving σ → Handled σ :=
  loudHandler I mem .increment
    (.increment (storedKey mem 20) (bigEndian (slice mem 24 8)) (bigEndian (slice mem 32 8))
      (bigEndian (slice mem 40 4)))
    fun a => valueResponse mem .increment a

/-- `noop_command_handler`. What the callback returns is ignored. -/
def noopCommandHandler (I : Interface σ) (mem : Bytes) (s : Serving σ) : Handled σ :=
  let s := if I.present .noop then (s.invoke I .noop).2 else s
  (.success, s.respond [positiveResponse mem .noop 0])

def appendCommandHandler (I : Interface σ) (mem : Bytes) : Serving σ → Handled σ :=
  loudHandler I mem .append
    (.append (storedKey mem 0) (storedData mem 0) (RequestHeader.ofBytes mem).cas)
    fun a => positiveResponse mem .append a.resultCas

def prependCommandHandler (I : Interface σ) (mem : Bytes) : Serving σ → Handled σ :=
  loudHandler I mem .prepend
    (.prepend (storedKey mem 0) (storedData mem 0) (RequestHeader.ofBytes mem).cas)
    fun a => positiveResponse mem .prepend a.resultCas

/-- `quit_command_handler`. The status ends the connection. -/
def quitCommandHandler (I : Interface σ) (mem : Bytes) (s : Serving σ) : Handled σ :=
  let s := if I.present .quit then (s.invoke I .quit).2 else s
  (.einternal, if (RequestHeader.ofBytes mem).opcode = Opcode.quit.toByte then
    s.respond [positiveResponse mem .quit 0] else s)

def replaceCommandHandler (I : Interface σ) (mem : Bytes) : Serving σ → Handled σ :=
  loudHandler I mem .replace
    (.replace (storedKey mem 8) (storedData mem 8) (storedFlags mem) (storedExpiration mem)
      (RequestHeader.ofBytes mem).cas)
    fun a => positiveResponse mem .replace a.resultCas

def setCommandHandler (I : Interface σ) (mem : Bytes) : Serving σ → Handled σ :=
  loudHandler I mem .set
    (.set (storedKey mem 8) (storedData mem 8) (storedFlags mem) (storedExpiration mem)
      (RequestHeader.ofBytes mem).cas)
    fun a => positiveResponse mem .set a.resultCas

/-- `stat_command_handler`. On success it terminates the entries. -/
def statCommandHandler (I : Interface σ) (mem : Bytes) : Serving σ → Handled σ :=
  callHandler I (.stat (storedKey mem 0))
    (fun a => a.stats.map (statResponseHandler (.ofBytes mem)))
    fun _ => [positiveResponse mem .stat 0]

/-- `version_command_handler`. On success the raw response handler is only asked to drain. -/
def versionCommandHandler (I : Interface σ) (mem : Bytes) : Serving σ → Handled σ :=
  callHandler I .version (fun a => a.versions.map (versionResponseHandler (.ofBytes mem))) fun _ => []

/-- `comcode_v0_v1_remap`. -/
def comcodeV0V1Remap (opcode : UInt8) : Option (Interface σ → Bytes → Serving σ → Handled σ) :=
  match opcode with
  | 0x12 | 0x02 => some addCommandHandler
  | 0x19 | 0x0e => some appendCommandHandler
  | 0x16 | 0x06 => some decrementCommandHandler
  | 0x14 | 0x04 => some deleteCommandHandler
  | 0x18 | 0x08 => some flushCommandHandler
  | 0x0d | 0x0c | 0x09 | 0x00 => some getCommandHandler
  | 0x15 | 0x05 => some incrementCommandHandler
  | 0x0a => some noopCommandHandler
  | 0x1a | 0x0f => some prependCommandHandler
  | 0x17 | 0x07 => some quitCommandHandler
  | 0x13 | 0x03 => some replaceCommandHandler
  | 0x11 | 0x01 => some setCommandHandler
  | 0x10 => some statCommandHandler
  | 0x0b => some versionCommandHandler
  | _ => none

/-! ## Execution -/

/-- A callback that is given the packet. -/
def Serving.raw (callback : RawCallback σ) (mem : Bytes) (s : Serving σ) : Handled σ :=
  let (rval, packets, app) := callback s.app (mem.take (RequestHeader.ofBytes mem).total)
  (rval, { s.respond packets with app := app })

/-- The handler of a command, in both versions of the interface. -/
def commandHandler (callbacks : Callbacks σ) (mem : Bytes) (s : Serving σ) : Handled σ :=
  match callbacks with
  | .v0 comcode =>
    match comcode (RequestHeader.ofBytes mem).opcode with
    | some callback => s.raw callback mem
    | none => (.unknownCommand, s)
  | .v1 I =>
    match comcodeV0V1Remap (RequestHeader.ofBytes mem).opcode with
    | some handler => handler I mem s
    | none => (.unknownCommand, s)

/-- The error packet for a status. -/
def errorResponse (mem : Bytes) (rval : Status) : Packet :=
  let r := RequestHeader.ofBytes mem
  { opcode := r.opcode, status := rval, opaque_ := r.opaque_ }

/-- The callback for unknown commands. -/
def unknownHandler (unknown : Option (RawCallback σ)) (mem : Bytes) (h : Handled σ) : Handled σ :=
  match unknown with
  | some callback => if h.1 = .unknownCommand then h.2.raw callback mem else h
  | none => h

/-- A status that is not success is answered with an error packet, but for those that end or pause
the connection. -/
def reportStatus (mem : Bytes) (h : Handled σ) : Handled σ :=
  if h.1 = .success ∨ h.1 = .einternal ∨ h.1 = .notSupported then h
  else (.success, h.2.respond [errorResponse mem h.1])

/-- `execute_command`. -/
def executeCommand (callbacks : Callbacks σ) (unknown : Option (RawCallback σ)) (mem : Bytes)
    (s : Serving σ) : Handled σ :=
  let s := { s with executed := s.executed ++ [mem.take (RequestHeader.ofBytes mem).total] }
  reportStatus mem (unknownHandler unknown mem (commandHandler callbacks mem s))

/-! ## Input -/

/-- `memcached_protocol_event_t`, and what happens when a pointer leaves the memory it is meant to
point into. -/
inductive Event where
  | error | read | pause | undefined
  deriving DecidableEq

/-- What the function for a protocol leaves: the event, the input buffer, the number of bytes that
are not consumed, and where they are if it says so. -/
structure Worked (σ : Type) where
  event : Event
  buffer : Bytes
  length : Nat
  endptr : Option Nat
  serving : Serving σ

/-- The loop of `memcached_binary_protocol_process_data`, with the header at an offset of the buffer.
Every packet has a header, so there are at most `len` rounds. -/
def binaryLoop (execute : Bytes → Serving σ → Handled σ) :
    Nat → Bytes → Nat → Nat → Option Nat → Serving σ → Worked σ
  | 0, buffer, _, len, endptr, s => ⟨.read, buffer, len, endptr, s⟩
  | fuel + 1, buffer, header, len, endptr, s =>
    let total := (RequestHeader.ofBytes (buffer.drop header)).total
    if headerLength ≤ len ∧ total ≤ len then
      match execute (buffer.drop header) s with
      | (.einternal, s) => ⟨.error, buffer, len, some header, s⟩
      | (.notSupported, s) => ⟨.pause, buffer, len, endptr, s⟩
      | (_, s) =>
        let ptr := header + total
        if len - total = 0 then
          binaryLoop execute fuel buffer header 0 (some header) s
        else if ptr % 8 = 0 then
          binaryLoop execute fuel buffer ptr (len - total) (some ptr) s
        else
          let moved := slice buffer ptr (len - total) ++ buffer.drop (len - total)
          binaryLoop execute fuel moved 0 (len - total) (some 0) s
    else ⟨.read, buffer, len, endptr, s⟩

/-- `memcached_binary_protocol_process_data`. Only the first packet's magic byte is looked at. -/
def binaryProcessData (execute : Bytes → Serving σ → Handled σ) (buffer : Bytes) (length : Nat)
    (s : Serving σ) : Worked σ :=
  if buffer.getD 0 0 ≠ binaryReq then ⟨.error, buffer, length, none, s⟩
  else binaryLoop execute length buffer 0 length none s

end LM
