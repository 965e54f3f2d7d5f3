import LibMemcached.Impl.Get

/-!
# Closing the connections

`quit.cc`, and `memcached_io_slurp` from `io.cc`. The system call `shutdown` returns nothing that the code
reads; what it does to the other side of the connection is a parameter.
-/

namespace LM

variable {κ : Type} (K : Kernel κ) (shutdown : κ → κ)

/-- The loop of `memcached_io_slurp`; what it reads is dropped. Every error ends it, since the `continue` in
it only reaches the test of `while (data_read > 0)`. -/
def slurpLoop : Nat → Act κ ReturnT
  | 0 => failure
  | fuel + 1 => do
    let s ← get
    match K.recv s.net maxBuffer with
    | (.data _, net) =>
      set { s with net := net }
      slurpLoop fuel
    | (.eof, net) =>
      set { s with net := net }
      return .connectionFailure
    | (.error e, net) =>
      set { s with net := net }
      if e = .eagain then
        let rc ← memcachedIoPoll K .pollIn
        return if rc.isSuccess then .connectionFailure else .inProgress
      else return .connectionFailure

/-- `memcached_io_slurp`. -/
def memcachedIoSlurp : Act κ ReturnT := do
  let s ← get
  if !s.valid then return .connectionFailure
  else slurpLoop K (K.supply s.net + 1)

/-- `send_quit_message`. -/
def sendQuitMessage : Act κ ReturnT := do
  let s ← get
  if s.memc.flags.binaryProtocol then
    let requestId ← initializeBinaryRequest
    memcachedVdo K false [requestHeader .quit requestId 0 0 0 0] true
  else memcachedVdo K false [ascii "quit\r\n"] true

/-- `memcached_instance_st::start_close_socket`. -/
def startCloseSocket : Act κ Unit :=
  modify fun s => { s with net := if s.valid then shutdown s.net else s.net }

/-- `drain_instance`. -/
def drainInstance : Act κ Unit := do
  let s ← get
  let _ ← (if s.memc.flags.bufferRequests || s.memc.numberOfReplicas != 0 then memcachedIoSlurp K
    else pure .success)
  modify fun s => { s with backoff.serverFailureCounter := 0, backoff.serverTimeoutCounter := 0 }

/-- `memcached_quit_server` without `io_death`. -/
def memcachedQuitServer : Act κ Unit := do
  let s ← get
  let _ ← (if s.valid && !s.memc.flags.useUdp then do
      let _ ← sendQuitMessage K
      startCloseSocket shutdown
      drainInstance K
    else pure ())
  closeSocket K

/-- `send_quit`. -/
def sendQuit : Query κ Unit := do
  foldServers (fun _ => memcachedQuitServer K shutdown) (← servers) ()

/-- `memcached_quit`. -/
def memcachedQuit : Query κ Unit := do
  let rc ← initializeQuery
  if rc.isFailed then return () else sendQuit K shutdown

end LM
