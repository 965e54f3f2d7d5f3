import LibMemcached.Impl.Behavior
import LibMemcached.Impl.Io

/-!
# A client with its connections

The host list of a client has one connection for each server. A function of the source that works on
one `memcached_instance_st` is run on the connection it is given by `onServer`; what it does to the
client (the recorded errors, the result, the purging flag) the next one finds. The first steps that
the public calls have in common are here too.
-/

namespace LM

/-- `memcached_st` with its connections, one for each host. -/
structure Client (κ : Type) extends Shared where
  conns : List (Conn κ)
  /-- The servers the current call was routed to, in their order. No modelled function reads them. -/
  routed : List Nat := []

abbrev Query (κ α : Type) := Prog (Client κ) α

/-- What a call finds in its surroundings: the time and the next value of `random()`. -/
structure Env where
  now : Nat
  random : Nat

variable {κ α : Type}

/-- A function of one server runs on connection `k` (`memcached_instance_fetch`); there is no
behaviour to speak of if there is no such connection. -/
def onServer (k : Nat) (m : Act κ α) : Query κ α := fun c => do
  let conn ← c.conns[k]?
  let (a, s) ← m ⟨conn, c.toShared⟩
  return (a, { c with toShared := s.toShared, conns := c.conns.set k s.toConn })

namespace Memcached

/-- `initialize_query`, but for the result of the client. -/
def initializeQuery (self : Memcached) : ReturnT × Memcached :=
  let self := { self with queryId := self.queryId + 1 }
  if self.serverCount = 0 then self.setError .noServers ""
  else (.success, self.errorFree)

end Memcached

/-- A function of the client alone. -/
def onClient (f : Memcached → α × Memcached) : Query κ α := do
  let c ← get
  let r := f c.memc
  set { c with memc := r.2 }
  return r.1

/-- `initialize_query`. With it a call begins, so it clears what statements about the last call read. -/
def initializeQuery : Query κ ReturnT := do
  let rc ← onClient Memcached.initializeQuery
  modify fun c =>
    { c with result := if rc.isSuccess then {} else c.result, answer := none, routed := [] }
  return rc

/-- `memcached_last_error`. -/
def lastError : Query κ ReturnT := do
  let c ← get
  return c.memc.lastError

/-- `memcached_generate_hash_with_redistribution`, as the calls use it. -/
def serverKey (H : Hashkit.Hashes) (env : Env) (groupKey : Bytes) : Query κ Nat := do
  match ← onClient fun memc =>
    memc.generateHashWithRedistribution H env.now env.random groupKey with
  | none => failure
  | some k =>
    modify fun c => { c with routed := c.routed ++ [k] }
    return k

end LM
