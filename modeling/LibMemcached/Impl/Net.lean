import LibMemcached.Framework.Prog
import LibMemcached.Impl.Memcached

/-!
# The connection of one server, and the system calls on it

`memcached_instance_st` as far as `io.cc`, `response.cc`, `purge.cc` and `do.cc` use it, and the
operating system under it: a `Kernel` gives the results of `send`, `recv`, `poll`, `connect` and
`close`, so that a statement about every kernel is a statement about every pattern of partial
sends, refused calls, time-outs and ways of cutting the incoming stream.

Bytes carry tags that no modelled function reads: the last byte of a command carries the command
(`Request`), and a received byte names the command it answers and whether it is the last byte of
the answer. A kernel that stands for a server answers by the first tag, and a statement about who
was answered reads the second.
-/

namespace LM

/-- `MEMCACHED_MAX_BUFFER`. -/
def maxBuffer : Nat := 8196

/-- `MEMCACHED_DEFAULT_COMMAND_SIZE`. -/
def defaultCommandSize : Nat := 350

/-- `SMALL_STRING_LEN`. -/
def smallStringLen : Nat := 1024

/-- A command as it is sent: its place in the order of commands, whether it asks for no answer
(`noreply`, or a quiet command of the binary protocol), and its bytes. -/
structure Request where
  id : Nat
  quiet : Bool
  bytes : Bytes
  deriving DecidableEq

/-- A byte to be sent; the last byte of a command carries the command. -/
structure OutByte where
  byte : UInt8
  ends : Option Request
  deriving DecidableEq

/-- A received byte, the command it answers, and whether it is the last byte of that answer. -/
structure InByte where
  byte : UInt8
  request : Nat
  last : Bool
  deriving DecidableEq

/-- The commands that end in `cells`. -/
def requestsOf (cells : List OutByte) : List Request := cells.filterMap (·.ends)

/-- The error numbers the code distinguishes; `eagain` stands for `EWOULDBLOCK`, `ERESTART` and
(on `recv`) `ETIMEDOUT` as well. -/
inductive Errno where
  | eintr | enobufs | eagain | enotconn | epipe | econnreset | econnrefused | enomem | einval | other
  deriving DecidableEq

/-- The code that `memcached_set_errno` turns an error number into. -/
def Errno.toReturn : Errno → ReturnT
  | enomem => .memoryAllocationFailure
  | enotconn | econnreset | econnrefused => .connectionFailure
  | einval => .invalidArguments
  | _ => .errno

inductive SendResult where
  | sent (n : Nat)
  | error (e : Errno)

inductive RecvResult where
  | data (cells : List InByte)
  | eof
  | error (e : Errno)

inductive PollEvent where
  | pollIn
  | pollOut
  deriving DecidableEq

/-- What `poll` and the `SO_ERROR` test after it tell: the descriptor is ready, the time is up, the
time is up and the socket has an error, the socket is in error or hung up, or `poll` failed. -/
inductive PollResult where
  | ready
  | timedOut
  | timedOutError (e : Errno)
  | hangup (e : Errno)
  | failed (e : Errno)

/-- What happens between a client and a server that it is not connected to: an attempt to connect at a time,
and a timeout, with the time up to which the server is to be left alone. -/
inductive Contact where
  | attempt (now : Int)
  | timeout (nextRetry : Int)
  deriving DecidableEq

/-- What `connect.cc` keeps of an instance between its attempts to connect. -/
structure Backoff where
  /-- Whether `state` is `MEMCACHED_SERVER_STATE_IN_TIMEOUT`; no modelled function tells the other states
  apart. -/
  inTimeout : Bool := false
  nextRetry : Int := 0
  serverFailureCounter : UInt32 := 0
  serverFailureCounterQueryId : UInt64 := 0
  serverTimeoutCounter : UInt32 := 0
  serverTimeoutCounterQueryId : UInt64 := 0
  /-- What happened so far; no modelled function reads it. -/
  log : List Contact := []
  deriving DecidableEq

/-- The system calls on one socket, over a state `κ` of the operating system and the peer.
`patience` bounds the calls that are still to be refused without effect (`EAGAIN`, `EINTR`,
`ENOBUFS`) and `supply` the bytes that can still be received before anything more is sent, so that
the loops of the code end; `garbage` is what uninitialised memory holds. -/
structure Kernel (κ : Type) where
  send : κ → List OutByte → SendResult × κ
  recv : κ → Nat → RecvResult × κ
  poll : κ → PollEvent → Int32 → PollResult × κ
  /-- What `connect.cc` does for an instance without a socket: `none` if the connection was established, the
  recorded error otherwise. -/
  connect : Memcached → Backoff → κ → Option ReturnT × Backoff × κ
  close : κ → κ
  garbage : κ → Nat → Bytes
  patience : κ → Nat
  supply : κ → Nat
  connect_isFatal (memc : Memcached) (b : Backoff) (k : κ) (rc : ReturnT) :
    (connect memc b k).1 = some rc → rc.isFatal = true
  garbage_length (k : κ) (n : Nat) : (garbage k n).length = n
  send_sent (k : κ) (cells : List OutByte) (n : Nat) :
    (send k cells).1 = .sent n → cells ≠ [] → 0 < n ∧ n ≤ cells.length
  recv_data (k : κ) (cap : Nat) (cells : List InByte) :
    (recv k cap).1 = .data cells → 0 < cap → cells ≠ [] ∧ cells.length ≤ cap
  recv_supply (k : κ) (cap : Nat) (cells : List InByte) :
    (recv k cap).1 = .data cells → supply (recv k cap).2 + cells.length ≤ supply k
  recv_supply_le (k : κ) (cap : Nat) : supply (recv k cap).2 ≤ supply k
  poll_supply (k : κ) (e : PollEvent) (t : Int32) : supply (poll k e t).2 ≤ supply k
  send_refused (k : κ) (cells : List OutByte) (e : Errno) : (send k cells).1 = .error e →
    e = .enobufs ∨ e = .eagain → patience (send k cells).2 < patience k
  recv_refused (k : κ) (cap : Nat) (e : Errno) : (recv k cap).1 = .error e →
    e = .eintr ∨ e = .eagain → patience (recv k cap).2 < patience k
  send_patience (k : κ) (cells : List OutByte) : patience (send k cells).2 ≤ patience k
  recv_patience (k : κ) (cap : Nat) : patience (recv k cap).2 ≤ patience k
  poll_patience (k : κ) (e : PollEvent) (t : Int32) : patience (poll k e t).2 ≤ patience k
  close_patience (k : κ) : patience (close k) ≤ patience k

/-- One wait of `io_flush` for room to send, kept for statements about runs: whether it was in a
flush that a purge started, whether the flush had already sent something, whether the wait ran a
purge, and whether it ended by a time-out. -/
structure Wait where
  nested : Bool
  progress : Bool
  purged : Bool
  timedOut : Bool
  deriving DecidableEq

/-- `memcached_instance_st`, as far as the input and output of a connection use it. The fields
after `net` are read by no modelled function. -/
structure Conn (κ : Type) where
  /-- Whether `fd` is a socket. -/
  valid : Bool := false
  /-- `cursor_active_`, a 32-bit counter. -/
  cursorActive : Nat := 0
  /-- `io_bytes_sent`, a 32-bit counter. -/
  ioBytesSent : Nat := 0
  /-- The `read_buffer_length` bytes from `read_ptr` on. -/
  readBuffer : List InByte := []
  /-- The first `write_buffer_offset` bytes of `write_buffer`. -/
  writeBuffer : List OutByte := []
  majorVersion : UInt8 := 255
  minorVersion : UInt8 := 255
  microVersion : UInt8 := 255
  requestId : UInt32 := 0
  backoff : Backoff := {}
  /-- The operating system's side of the connection. -/
  net : κ
  /-- The bytes copied into the write buffer for the last connection that was made. -/
  copied : List OutByte := []
  /-- The bytes `send` accepted on the last connection that was made. -/
  accepted : List OutByte := []
  /-- The bytes taken from the read buffer so far. -/
  consumed : List InByte := []
  /-- What the last answer that was read consists of. -/
  lastReply : List InByte := []
  waits : List Wait := []

/-- `memcached_result_st`; the numeric value is `UINT64_MAX` until one was read. -/
structure Result where
  itemKey : Bytes := []
  itemFlags : Nat := 0
  itemCas : Nat := 0
  value : Bytes := []
  numericValue : Nat := 2 ^ 64 - 1
  deriving DecidableEq

/-- What the servers of a client share. The fields after `result` are read by no modelled function. -/
structure Shared where
  memc : Memcached
  /-- `state.is_purging`. -/
  isPurging : Bool := false
  /-- `result` of the client. -/
  result : Result := {}
  /-- The number of commands issued so far. -/
  issued : Nat := 0
  /-- The answer that decided the code of the current call. -/
  answer : Option (List InByte) := none
  /-- The codes of the answers that purges read. -/
  purgeLog : List ReturnT := []

/-- The state a call on one server works on: the connection of the server and what it shares with
the other servers. -/
structure St (κ : Type) extends Conn κ, Shared

abbrev Act (κ α : Type) := Prog (St κ) α

variable {κ : Type} (K : Kernel κ)

/-- `memcached_set_error` on an instance, with a text: `CLIENT_ERROR` is recorded too. -/
def setErrorText (rc : ReturnT) (message : String) : Act κ ReturnT := do
  modify fun s => { s with memc := s.memc.errorSet rc message }
  return rc

/-- `memcached_set_error` on an instance, without a text. -/
def setError (rc : ReturnT) : Act κ ReturnT := do
  modify fun s => { s with memc := if rc.isFatal then s.memc.errorSet rc "" else s.memc }
  return rc

/-- `memcached_set_errno` on an instance; the text is the system's. -/
def setErrno (e : Errno) : Act κ ReturnT := setErrorText e.toReturn ""

/-- `memcached_instance_st::close_socket`; `memcached_quit_server` with `io_death` and
`memcached_io_reset` do nothing else on a connection that is not UDP. -/
def closeSocket : Act κ Unit :=
  modify fun s =>
    { s with
      valid := false, cursorActive := 0, ioBytesSent := 0, readBuffer := [], writeBuffer := [],
      majorVersion := 255, minorVersion := 255, microVersion := 255, backoff.inTimeout := false,
      net := if s.valid then K.close s.net else s.net }

/-- `memcached_server_response_increment`. -/
def responseIncrement : Act κ Unit :=
  modify fun s => { s with cursorActive := (s.cursorActive + 1) % 2 ^ 32 }

/-- `memcached_server_response_decrement`: it stops at zero. -/
def responseDecrement : Act κ Unit :=
  modify fun s => { s with cursorActive := s.cursorActive - 1 }

/-- `memcached_connect`; what `connect.cc` does without a socket is in the kernel. The version request of
`memcached_version_instance` is sent if a version is known, which is never so while there is no
connection. -/
def memcachedConnect : Act κ ReturnT := do
  let s ← get
  if s.valid then return .success
  else
    match K.connect s.memc s.backoff s.net with
    | (none, backoff, net) =>
      set { s with valid := true, backoff := backoff, net := net, copied := s.writeBuffer, accepted := [] }
      return .success
    | (some rc, backoff, net) =>
      set { s with backoff := backoff, net := net }
      setErrorText rc ""

/-! ## Waiting -/

/-- `memcached_io_poll` for an established connection. A descriptor that is no socket is ignored by
`poll` and refused by `getsockopt`. -/
def memcachedIoPoll (event : PollEvent) : Act κ ReturnT := do
  let s ← get
  if s.memc.pollTimeout = 0 then setErrorText .timeout "timeout was set to zero"
  else if !s.valid then setErrno .other
  else
    match K.poll s.net event s.memc.pollTimeout with
    | (.ready, net) =>
      set { s with net := net }
      return .success
    | (.timedOut, net) =>
      set { s with net := net }
      setErrorText .timeout "time out"
    | (.timedOutError e, net) =>
      set { s with net := net }
      setErrno e
    | (.hangup e, net) =>
      set { s with net := net }
      let rc ← setErrno e
      closeSocket K
      return rc
    | (.failed e, net) =>
      set { s with net := net }
      match e with
      | .enomem => setError .memoryAllocationFailure
      | .einval => setErrorText .invalidArguments "RLIMIT_NOFILE exceeded, or invalid timeout"
      | _ => setErrno e

/-- `io_wait` for `POLLOUT`, with the purge it starts. -/
def ioWaitOut (purge : Act κ Bool) : Act κ ReturnT := do
  if ← purge then memcachedIoPoll K .pollOut else return .failure

/-! ## Reading -/

/-- `repack_input_buffer`: one `recv` into the room that is left. `EINTR` leaves the loop as well,
since the `continue` in it only reaches the test of `while (false)`. -/
def repackInputBuffer : Act κ Bool := do
  let s ← get
  if s.readBuffer.length = maxBuffer then return false
  else if !s.valid then
    let _ ← setErrno .other
    return false
  else
    match K.recv s.net (maxBuffer - s.readBuffer.length) with
    | (.data cells, net) =>
      set { s with net := net, readBuffer := s.readBuffer ++ cells }
      return true
    | (.eof, net) =>
      set { s with net := net }
      let _ ← setError .connectionFailure
      return false
    | (.error e, net) =>
      set { s with net := net }
      if e = .eintr ∨ e = .eagain then return false
      else
        let _ ← setErrno e
        return false

/-- The loop of `_io_fill`. -/
def ioFillLoop : Nat → Act κ ReturnT
  | 0 => failure
  | fuel + 1 => do
    let s ← get
    match K.recv s.net maxBuffer with
    | (.data cells, net) =>
      set { s with net := net, readBuffer := cells, ioBytesSent := 0 }
      return .success
    | (.eof, net) =>
      set { s with net := net }
      closeSocket K
      setErrorText .connectionFailure "::rec() returned zero, server has disconnected"
    | (.error e, net) =>
      set { s with net := net }
      if e = .eintr then ioFillLoop fuel
      else if e = .eagain then do
        let rc ← memcachedIoPoll K .pollIn
        if rc.isSuccess then ioFillLoop fuel else return rc
      else
        closeSocket K
        setErrno e

/-- `_io_fill`. -/
def ioFill : Act κ ReturnT := do
  let s ← get
  ioFillLoop K (K.patience s.net + 1)

/-- The bytes `cells` are taken from the read buffer, which then holds `rest`. -/
def St.consume (s : St κ) (cells rest : List InByte) : St κ :=
  { s with readBuffer := rest, consumed := s.consumed ++ cells }

/-- The loop of `memcached_io_read`: `length` more bytes, after those in `acc`. Each round copies at
least one byte, so `fuel = length` is enough. -/
def ioReadLoop : Nat → Nat → List InByte → Act κ (ReturnT × List InByte)
  | _, 0, acc => return (.success, acc)
  | 0, _ + 1, _ => failure
  | fuel + 1, length + 1, acc => do
    let s ← get
    let rc ← (if s.readBuffer = [] then ioFill K else pure .success)
    if rc.isFatal then return (rc, acc)
    else
      let s ← get
      let difference := min (length + 1) s.readBuffer.length
      set (s.consume (s.readBuffer.take difference) (s.readBuffer.drop difference))
      ioReadLoop fuel (length + 1 - difference) (acc ++ s.readBuffer.take difference)

/-- `memcached_io_read`. -/
def memcachedIoRead (length : Nat) : Act κ (ReturnT × List InByte) := do
  let s ← get
  if !s.valid then return (.connectionFailure, [])
  else ioReadLoop K length length []

/-- `memcached_safe_read`. `memcached_io_read` reads all it is asked for or fails, and never returns
`IN_PROGRESS`, so one round of the loop is all there is. -/
def memcachedSafeRead (size : Nat) : Act κ (ReturnT × List InByte) :=
  if size = 0 then return (.success, [])
  else memcachedIoRead K size

/-- The inner loop of `memcached_io_readline`: at most `room` bytes are copied from the read buffer,
up to the end of the line. It returns the copied bytes, the rest, and whether the line is complete. -/
def copyLine : Nat → List InByte → List InByte × List InByte × Bool
  | room + 1, c :: rest =>
    if c.byte = 10 then ([c], rest, true)
    else
      let (line, rest', complete) := copyLine room rest
      (c :: line, rest', complete)
  | _, cells => ([], cells, false)

/-- One round of `memcached_io_readline`, after `first` was read through `memcached_io_read`: what is
copied from the read buffer, what stays in it, and whether the line is complete. -/
def takeLine (room : Nat) (first buffer : List InByte) : List InByte × List InByte × Bool :=
  if first.any (·.byte == 10) then ([], buffer, true) else copyLine room buffer

/-- The loop of `memcached_io_readline`; `acc` holds the `total_nr` bytes copied so far. -/
def readlineLoop (size : Nat) : Nat → List InByte → Act κ (ReturnT × List InByte)
  | 0, _ => failure
  | fuel + 1, acc => do
    let s ← get
    let (rc, first) ← (if s.readBuffer = [] then memcachedIoRead K 1 else pure (.success, []))
    if rc.isFailed then
      if rc = .inProgress then
        closeSocket K
        let rc ← setError rc
        return (rc, acc)
      else return (rc, acc)
    else
      let s ← get
      let taken := takeLine (size - (acc ++ first).length) first s.readBuffer
      set (s.consume taken.1 taken.2.1)
      if (acc ++ first ++ taken.1).length = size then
        return (.protocolError, acc ++ first ++ taken.1)
      else if taken.2.2 then return (.success, acc ++ first ++ taken.1)
      else readlineLoop size fuel (acc ++ first ++ taken.1)

/-- `memcached_io_readline`: the bytes of one line, with its line feed. -/
def memcachedIoReadline (size : Nat) : Act κ (ReturnT × List InByte) := readlineLoop K size size []

end LM
