import LibMemcached.Impl.Response

/-!
# The callbacks of the server library

`callback.h` of `libmemcachedprotocol`: an application gives the library either one handler for each
command code (version 0) or one callback for each logical command (version 1). An application is an
arbitrary state with answers that may depend on it, and which of the version 1 callbacks it has.
What it hands to a response handler is part of its answer; the library then produces the responses
in that order. `pre_execute` and `post_execute`, which the library only notifies, are left out.
-/

namespace LM

/-- `protocol_binary_response_status`. -/
inductive Status where
  | success | keyEnoent | keyEexists | e2big | einval | notStored | deltaBadval | notMyVbucket
  | authError | authContinue | unknownCommand | enomem | notSupported | einternal | ebusy | etmpfail
  deriving DecidableEq

def Status.code : Status → Nat
  | success => 0x00 | keyEnoent => 0x01 | keyEexists => 0x02 | e2big => 0x03 | einval => 0x04
  | notStored => 0x05 | deltaBadval => 0x06 | notMyVbucket => 0x07 | authError => 0x20
  | authContinue => 0x21 | unknownCommand => 0x81 | enomem => 0x82 | notSupported => 0x83
  | einternal => 0x84 | ebusy => 0x85 | etmpfail => 0x86

/-- The members of `memcached_binary_protocol_callback_v1_st`. -/
inductive Callback where
  | add | append | decrement | deleteObject | flushObject | get | increment | noop | prepend | quit
  | replace | set | stat | version
  deriving DecidableEq

/-- A call of a callback, with the arguments it is given. -/
inductive Invocation where
  | add (key data : Bytes) (flags exptime : Nat)
  | append (key data : Bytes) (cas : Nat)
  | decrement (key : Bytes) (delta initial expiration : Nat)
  | deleteObject (key : Bytes) (cas : Nat)
  | flushObject (timeout : Nat)
  | get (key : Bytes)
  | increment (key : Bytes) (delta initial expiration : Nat)
  | noop
  | prepend (key data : Bytes) (cas : Nat)
  | quit
  | replace (key data : Bytes) (flags exptime cas : Nat)
  | set (key data : Bytes) (flags exptime cas : Nat)
  | stat (key : Bytes)
  | version
  deriving DecidableEq

/-- The callback that is called. -/
def Invocation.callback : Invocation → Callback
  | add .. => .add
  | append .. => .append
  | decrement .. => .decrement
  | deleteObject .. => .deleteObject
  | flushObject .. => .flushObject
  | get .. => .get
  | increment .. => .increment
  | noop => .noop
  | prepend .. => .prepend
  | quit => .quit
  | replace .. => .replace
  | set .. => .set
  | stat .. => .stat
  | version => .version

/-- The arguments of a call of the response handler that `get` is given. -/
structure Hit where
  key : Bytes
  body : Bytes
  flags : UInt32
  cas : UInt64
  key_lt : key.length < 2 ^ 16
  body_lt : body.length < 2 ^ 32

/-- The arguments of a call of the response handler that `stat` is given; the key may be `NULL`. -/
structure StatEntry where
  key : Option Bytes
  body : Bytes
  key_lt : (key.getD []).length < 2 ^ 16
  body_lt : body.length < 2 ^ 32

/-- What a callback returns, writes through its pointers and hands to its response handler. -/
structure Answer where
  status : Status
  resultCas : UInt64 := 0
  result : UInt64 := 0
  hits : List Hit := []
  stats : List StatEntry := []
  versions : List Bytes := []

/-- The callbacks of version 1. -/
structure Interface (σ : Type) where
  present : Callback → Bool
  answer : σ → Invocation → Answer × σ

/-- A response packet: the fields of `protocol_binary_response_header` and what follows it. The
request's `opaque` is copied as it is. -/
structure Packet where
  opcode : UInt8
  keylen : Nat := 0
  extlen : Nat := 0
  status : Status := .success
  bodylen : Nat := 0
  opaque_ : Bytes
  cas : Nat := 0
  body : Bytes := []
  deriving DecidableEq

def Packet.bytes (p : Packet) : Bytes :=
  [0x81, p.opcode] ++ toBigEndian 2 p.keylen ++ [UInt8.ofNat p.extlen, 0] ++
    toBigEndian 2 p.status.code ++ toBigEndian 4 p.bodylen ++ p.opaque_ ++ toBigEndian 8 p.cas ++ p.body

/-- A handler of version 0, or the callback for unknown commands. It is given the packet and may not
read anything outside of it; it hands packets to the raw response handler. -/
abbrev RawCallback (σ : Type) : Type := σ → Bytes → Status × List Packet × σ

inductive Callbacks (σ : Type) where
  | v0 (comcode : UInt8 → Option (RawCallback σ))
  | v1 (interface : Interface σ)

/-- `enum ascii_cmd`. -/
inductive AsciiCmd where
  | get | gets | set | add | replace | cas | append | prepend | delete | incr | decr | stats
  | flushAll | version | quit | verbosity | unknown
  deriving DecidableEq

/-- The state of a connection that the command handlers use, and the application's. The lists of
calls, packets and executed requests are only added to. -/
structure Serving (σ : Type) where
  app : σ
  mute : Bool := false
  asciiCommand : AsciiCmd := .get
  calls : List Invocation := []
  /-- The packets that were handed over by the binary protocol. -/
  packets : List Packet := []
  /-- The binary requests that were executed. -/
  executed : List Bytes := []
  /-- What was spooled by the text protocol. -/
  spooled : Bytes := []

variable {σ : Type}

/-- A call of a callback. -/
def Serving.invoke (I : Interface σ) (call : Invocation) (s : Serving σ) : Answer × Serving σ :=
  ((I.answer s.app call).1,
    { s with app := (I.answer s.app call).2, calls := s.calls ++ [call] })

/-- A packet is handed over. -/
def Serving.respond (packets : List Packet) (s : Serving σ) : Serving σ :=
  { s with packets := s.packets ++ packets }

/-- `spool_output`, as far as the handlers see it. -/
def Serving.spool (data : Bytes) (s : Serving σ) : Serving σ :=
  if s.mute then s else { s with spooled := s.spooled ++ data }

end LM
