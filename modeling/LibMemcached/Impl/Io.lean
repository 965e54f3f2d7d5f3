import LibMemcached.Impl.Response

/-!
# Writing, purging and issuing commands

`io_flush`, `_io_write` and the functions over them from `io.cc`, `memcached_purge` from `purge.cc`,
`memcached_response` from `response.cc` and `memcached_vdo` from `do.cc`.

`io_flush` calls `memcached_purge`, at its start and whenever it has to wait, and `memcached_purge`
flushes; while a purge runs every further call of `memcached_purge` returns at once. The writing
functions therefore take the purge as an argument (`purge`), and `memcachedPurge` is unfolded to a
depth: at depth zero only that early return is left.
-/

namespace LM

variable {κ : Type} (K : Kernel κ)

/-- The first test of `memcached_purge`: whether there is nothing to do. -/
def St.skipsPurge (s : St κ) : Bool :=
  s.isPurging ||
    (decide (s.cursorActive < s.memc.ioMsgWatermark.toNat) &&
      decide (s.ioBytesSent < s.memc.ioBytesWatermark.toNat)) ||
    (decide (s.memc.ioBytesWatermark.toNat ≤ s.ioBytesSent) && decide (s.cursorActive < 2))

/-! ## Flushing -/

def St.logWait (s : St κ) (w : Wait) : St κ := { s with waits := s.waits ++ [w] }

/-- The loop of `io_flush`; `rest` are the bytes from `local_write_ptr` on. They stay what they are
while a purge inside `io_wait` empties the write buffer, since nothing is copied into it then. -/
def flushLoop (purge : Act κ Bool) (total : Nat) : Nat → List OutByte → Act κ Bool
  | _, [] => do
    modify fun s => { s with writeBuffer := [] }
    return true
  | 0, _ :: _ => failure
  | fuel + 1, c :: cs => do
    let s ← get
    let rest := c :: cs
    match if s.valid then K.send s.net rest else (.error .other, s.net) with
    | (.sent n, net) =>
      set { s with net := net, ioBytesSent := (s.ioBytesSent + n) % 2 ^ 32,
                   accepted := s.accepted ++ rest.take n }
      flushLoop purge total fuel (rest.drop n)
    | (.error e, net) =>
      set { s with net := net }
      match e with
      | .enobufs => flushLoop purge total fuel rest
      | .eagain =>
        if ← repackInputBuffer K then flushLoop purge total fuel rest
        else
          let s ← get
          let rc ← ioWaitOut K purge
          modify (·.logWait ⟨s.isPurging, rest.length < total, !s.skipsPurge, rc == .timeout⟩)
          if rc.isSuccess then flushLoop purge total fuel rest
          else if rc = .timeout then return false
          else
            closeSocket K
            let _ ← setErrno .eagain
            return false
      | .enotconn | .epipe | .econnreset =>
        closeSocket K
        let _ ← setError .connectionFailure
        return false
      | e =>
        closeSocket K
        let _ ← setErrno e
        return false

/-- `io_flush`: every round of its loop sends a byte or is one of the refused calls. -/
def ioFlush (purge : Act κ Bool) : Act κ Bool := do
  if ← purge then
    let s ← get
    let total := s.writeBuffer.length
    flushLoop K purge total (total + K.patience s.net) s.writeBuffer
  else return false

/-! ## Writing -/

/-- Bytes copied to the end of the write buffer. -/
def St.copyIn (s : St κ) (cells : List OutByte) : St κ :=
  { s with writeBuffer := s.writeBuffer ++ cells, copied := s.copied ++ cells }

/-- The loop of `_io_write`. A round that copies nothing flushes a full buffer, so two rounds copy
at least one byte. -/
def ioWriteLoop (purge : Act κ Bool) : Nat → List OutByte → Act κ Bool
  | _, [] => return true
  | 0, _ :: _ => failure
  | fuel + 1, c :: cs => do
    let s ← get
    let n := min (maxBuffer - s.writeBuffer.length) (cs.length + 1)
    set (s.copyIn ((c :: cs).take n))
    if (s.copyIn ((c :: cs).take n)).writeBuffer.length = maxBuffer then
      if ← ioFlush K purge then ioWriteLoop purge fuel ((c :: cs).drop n) else return false
    else ioWriteLoop purge fuel ((c :: cs).drop n)

/-- `_io_write`. On success `written` is the whole length. -/
def ioWrite (purge : Act κ Bool) (cells : List OutByte) (withFlush : Bool) : Act κ Bool := do
  if ← ioWriteLoop K purge (2 * cells.length) cells then
    if withFlush then ioFlush K purge else return true
  else return false

/-! ## The purge -/

/-- The answers that make a purge fail. -/
def purgeFails (rc : ReturnT) : Bool :=
  rc == .protocolError || rc == .unknownReadFailure || rc == .readFailure

/-- The code of an answer is noted, if there was a connection to read it from. -/
def St.logPurge (s : St κ) (wasOpen : Bool) (rc : ReturnT) : St κ :=
  { s with purgeLog := if wasOpen then s.purgeLog ++ [rc] else s.purgeLog }

/-- The loop of `memcached_purge`: `n` answers are read, on a result that is reset each time. -/
def purgeLoop : Nat → Bool → Act κ Bool
  | 0, ok => return ok
  | n + 1, ok => do
    let s ← get
    let reply ← memcachedReadOneResponse K (K.garbage s.net smallStringLen) {}
    modify (·.logPurge s.valid reply.rc)
    purgeLoop n (ok && !purgeFails reply.rc)

/-- The answers a purge reads, all but the last one outstanding. The poll time-out is 50 ms while
they are read. -/
def purgeAnswers : Act κ Bool := do
  let s ← get
  if 1 < s.cursorActive then
    modify fun s => { s with memc := { s.memc with pollTimeout := 50 } }
    let ok ← purgeLoop K (s.cursorActive - 1) true
    modify fun s' => { s' with memc := { s'.memc with pollTimeout := s.memc.pollTimeout } }
    return ok
  else return true

/-- What a purge does when it could not flush. -/
def purgeFailed : Act κ Bool := do
  closeSocket K
  let _ ← setError .writeFailure
  return false

/-- `memcached_purge` once there is something to do: `write` is `memcached_io_write`. -/
def purgeBody (write : Act κ Bool) : Act κ Bool := do
  modify fun s => { s with isPurging := true }
  let written ← write
  let ok ← (if written then purgeAnswers K else purgeFailed K)
  modify fun s => { s with isPurging := false }
  return ok

/-- `memcached_purge`, with the flushes inside it unfolded to a depth. -/
def memcachedPurge : Nat → Act κ Bool
  | 0 => do
    let s ← get
    if s.skipsPurge then return true else failure
  | depth + 1 => do
    let s ← get
    if s.skipsPurge then return true
    else purgeBody K (ioWrite K (memcachedPurge depth) [] true)

/-- `memcached_purge`. -/
def purge : Act κ Bool := memcachedPurge K 1

/-- `memcached_io_write` with data. -/
def memcachedIoWrite (cells : List OutByte) (withFlush : Bool) : Act κ Bool :=
  ioWrite K (purge K) cells withFlush

/-- The loop of `memcached_io_writev`. -/
def writevLoop : List (List OutByte) → Act κ Bool
  | [] => return true
  | v :: vs => do
    if v = [] then writevLoop vs
    else if ← memcachedIoWrite K v false then writevLoop vs else return false

/-- `memcached_io_writev`. What was written is always all of it, so the comparison of the totals at
its end holds. -/
def memcachedIoWritev (vector : List (List OutByte)) (withFlush : Bool) : Act κ Bool := do
  if ← writevLoop K vector then
    if withFlush then memcachedIoWrite K [] true else return true
  else return false

/-! ## Answers and commands -/

/-- The loop of `memcached_response` that reads the answers of earlier commands. -/
def junkLoop (bufferLength : Nat) : Nat → Bytes → Result → Act κ Reply
  | 0, _, _ => failure
  | fuel + 1, buffer, result => do
    let s ← get
    if s.cursorActive ≤ 1 then return ⟨.success, buffer, result⟩
    else
      let reply ← readOneResponse K bufferLength buffer result
      if reply.rc.isFatal then return reply
      else junkLoop bufferLength fuel reply.buffer reply.result

/-- `memcached_response` into a line buffer of the given length and the result of the client. -/
def memcachedResponse (bufferLength : Nat) : Act κ ReturnT := do
  let s ← get
  let _ ← (if s.memc.flags.noBlock then memcachedIoWrite K [] true else pure true)
  let s ← get
  let buffer := K.garbage s.net bufferLength
  let junk ←
    (if !s.memc.flags.binaryProtocol && decide (1 < s.cursorActive) then
      junkLoop K bufferLength (s.readBuffer.length + K.supply s.net + 1) buffer {}
    else pure ⟨.success, buffer, {}⟩)
  let reply ←
    (if junk.rc.isFatal then pure { junk with result := s.result }
    else readOneResponse K bufferLength junk.buffer s.result)
  modify fun s => { s with result := reply.result, answer := some s.lastReply }
  return reply.rc

/-- The bytes of a command, the last of which carries the command. -/
def command (r : Request) : List OutByte :=
  r.bytes.zipIdx.map fun (b, i) => ⟨b, if i + 1 = r.bytes.length then some r else none⟩

/-- A command in several pieces: `cells` split into pieces of the lengths of `vector`. -/
def pieces : List Bytes → List OutByte → List (List OutByte)
  | [], _ => []
  | v :: vs, cells => cells.take v.length :: pieces vs (cells.drop v.length)

/-- `memcached_vdo` when the command could not be written. -/
def vdoFailed : Act κ ReturnT := do
  let s ← get
  let rc := s.memc.lastError
  let _ ← (if rc = .success then setError .writeFailure else pure rc)
  closeSocket K
  return rc

/-- `memcached_vdo` when the command was written. -/
def vdoWritten : Act κ ReturnT := do
  let s ← get
  let _ ← (if s.memc.flags.reply then responseIncrement else pure ())
  return .success

/-- `memcached_vdo`: one command, given by the pieces it is written in. Whether it asks for no answer
is in the bytes; `quiet` only repeats it for statements. -/
def memcachedVdo (quiet : Bool) (vector : List Bytes) (withFlush : Bool) : Act κ ReturnT := do
  let rc ← memcachedConnect K
  if rc.isFailed then return rc
  else
    let s ← get
    set { s with issued := s.issued + 1 }
    let sent ←
      memcachedIoWritev K (pieces vector (command ⟨s.issued, quiet, vector.flatten⟩)) withFlush
    if sent then vdoWritten else vdoFailed K

end LM
