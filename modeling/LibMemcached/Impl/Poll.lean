import LibMemcached.Impl.Net

/-!
# The loop around `poll`

`memcached_io_poll` (`libmemcached/io.cc`) with each of its calls of `poll`. What
the calls report is a list; a run that is still waiting when the list ends has one
more call under way. The functions return the timeouts passed to `poll`, one for
each call, and how the wait ended.
-/

namespace LM.Poll

/-- `1000000`: nanoseconds in a millisecond. -/
def nsPerMs : Int64 := 1000000

def pollOut : UInt16 := 0x0004

/-- `POLLERR | POLLHUP | POLLNVAL`. -/
def pollTrouble : UInt16 := 0x0038

/-- `IO_POLL_CONNECT`. -/
def ioPollConnect : UInt16 := 0

/-- A reading of the monotonic clock in nanoseconds, `tv_sec * 1000000000 + tv_nsec`. -/
structure Reading where
  ns : Int64
  nonneg : 0 ≤ ns
  deriving DecidableEq

/-- What `getsockopt` of `SO_ERROR` tells. -/
inductive SockErr
  | none
  | pending (err : Errno)
  | failed (errno : Errno)
  deriving DecidableEq

/-- What a call of `poll` reports, with the answers to the questions the code asks behind it: the
clock, and `SO_ERROR` once or, for a connection in progress, twice. `EFAULT` counts as `ENOMEM` and
`ERESTART` as `EINTR`. -/
inductive Polled
  | interrupted (reading : Reading)
  | noMemory
  | invalid
  | failed (errno : Errno)
  | timedOut (err : SockErr)
  | active (revents : UInt16) (trouble connected : SockErr)
  deriving DecidableEq

/-- What becomes of the socket when the wait ends. -/
inductive Closing
  | kept | reset | quit
  deriving DecidableEq

/-- How a wait ends: the code, the text of the error, and what becomes of the socket. -/
structure Ended where
  rc : ReturnT
  message : String
  closing : Closing
  deriving DecidableEq

/-- `io_sock_err`: the code and the text. -/
def ioSockErr (reason : String) : SockErr → ReturnT × String
  | .none => (.success, "")
  | .pending err => (err.toReturn, reason)
  | .failed errno => (errno.toReturn, "getsockopt()")

/-- What a wait is for: `events` and `prev_errno == EALREADY` of the call, its timeout, and the
clock when it was entered. -/
structure Wait where
  events : UInt16
  already : Bool
  timeout : Int32
  start : Reading
  deriving DecidableEq

/-- `elapsed / 1000000`. -/
def Wait.elapsedMs (w : Wait) (reading : Reading) : Int64 := (reading.ns - w.start.ns) / nsPerMs

/-- The body of the loop behind a call of `poll`: the wait ends, or `poll` is called again with the
timeout that is returned. -/
def afterPoll (w : Wait) (pollTimeout : Int32) : Polled → Ended ⊕ Int32
  | .interrupted reading =>
    if w.elapsedMs reading ≥ w.timeout.toInt64 ∨ w.start.ns = 0 then
      .inl ⟨.timeout, "timeout on interrupt or restart", .kept⟩
    else .inr (pollTimeout.toInt64 - w.elapsedMs reading).toInt32
  | .noMemory => .inl ⟨.memoryAllocationFailure, "", .kept⟩
  | .invalid => .inl ⟨.invalidArguments, "RLIMIT_NOFILE exceeded, or invalid timeout", .kept⟩
  | .failed errno =>
    .inl ⟨errno.toReturn, "poll()", if w.events = ioPollConnect then .reset else .kept⟩
  | .timedOut err =>
    let (rc, message) :=
      if w.already then (.success, "") else ioSockErr "getsockopt() after poll() timed out" err
    if rc ≠ .success then .inl ⟨rc, message, .kept⟩ else .inl ⟨.timeout, "time out", .kept⟩
  | .active revents trouble connected =>
    let (rc, message) :=
      if revents &&& pollTrouble ≠ 0 then ioSockErr "poll(POLLERR|POLLHUP|POLLNVAL)" trouble
      else (.success, "")
    if rc ≠ .success then
      .inl ⟨rc, message, if w.events ≠ ioPollConnect then .quit else .kept⟩
    else if revents &&& w.events ≠ 0 ∨ (w.events = ioPollConnect ∧ revents &&& pollOut ≠ 0) then
      let (rc, message) :=
        if w.events = ioPollConnect then ioSockErr "SO_ERROR after connect" connected
        else (.success, "")
      .inl ⟨rc, message, .kept⟩
    else .inr pollTimeout

/-- The loop of `memcached_io_poll`. -/
def pollLoop (w : Wait) (pollTimeout : Int32) : List Polled → List Int32 × Option Ended
  | [] => ([pollTimeout], none)
  | polled :: rest =>
    match afterPoll w pollTimeout polled with
    | .inl ended => ([pollTimeout], some ended)
    | .inr pollTimeout' =>
      let (timeouts, ended) := pollLoop w pollTimeout' rest
      (pollTimeout :: timeouts, ended)

/-- The timeout that a wait for `events` starts with. -/
def timeoutOf (root : Memcached) (events : UInt16) : Int32 :=
  if events ≠ ioPollConnect then root.pollTimeout else root.connectTimeout

/-- `memcached_io_poll`. The first reading of the clock may fail. -/
def memcachedIoPoll (root : Memcached) (events : UInt16) (already : Bool)
    (clock : Except Errno Reading) (polled : List Polled) : List Int32 × Option Ended :=
  let timeout := timeoutOf root events
  if timeout = 0 then ([], some ⟨.timeout, "timeout was set to zero", .kept⟩)
  else
    match clock with
    | .error errno => ([], some ⟨errno.toReturn, "clock_gettime()", .kept⟩)
    | .ok start => pollLoop ⟨events, already, timeout, start⟩ timeout polled

end LM.Poll
