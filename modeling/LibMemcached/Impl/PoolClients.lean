import LibMemcached.Impl.Behavior
import LibMemcached.Impl.Pool

/-!
# The clients of a pool

`libmemcachedutil/pool.cc` once more, with the settings of the clients: the pool holds pointers to them,
so they are kept apart, by their numbers. What `Impl.Pool` leaves open is decided here: a behaviour is
set with `memcached_behavior_set` on the master and on every client in the pool, and a new client is a
`memcached_clone` of the master, which does not fail.

A critical section carries the readings of the clock that it sees: `now` for the master, and `clock`
for each of the clients, since each is set or made at most once.
-/

namespace LM

/-- The pool, its threads, its master and its clients. -/
structure PoolClients where
  sys : PoolSystem
  master : Memcached
  /-- The clients, by their numbers. -/
  client : Nat → Memcached

/-- The calls of the threads. -/
inductive PoolCall where
  | fetch (thread : Nat) (waits : Bool)
  /-- `pthread_cond_timedwait` returns, and `fetch` goes on. -/
  | wake (thread : Nat) (wakeup : Wakeup)
  | release (thread : Nat) (client : Clone)
  | behaviorSet (flag : Behavior) (data : UInt64)

/-- The behaviour that a call sets. -/
def PoolCall.flag? : PoolCall → Option Behavior
  | .behaviorSet flag _ => some flag
  | _ => none

namespace PoolClients

/-- The clients after some were made: those that have no number yet are clones of the master. -/
def withClones (H : Hashkit.Hashes) (clock : Nat → Nat) (s : PoolClients) (master : Memcached)
    (client : Nat → Memcached) (id : Nat) : Memcached :=
  if id < s.sys.pool.clones then client id else (master.clone H (clock id)).getD (client id)

/-- A critical section that makes clones but does not change settings. -/
def enter (H : Hashkit.Hashes) (clock : Nat → Nat) (s : PoolClients) (event : PoolEvent) :
    Option PoolClients := do
  let sys ← s.sys.step event
  return { s with sys := sys, client := s.withClones H clock s.master s.client }

/-- `memcached_behavior_set` on a client in the pool. -/
def setClient (H : Hashkit.Hashes) (clock : Nat → Nat) (s : PoolClients) (flag : Behavior)
    (data : UInt64) (id : Nat) : ReturnT × Memcached :=
  (s.client id).behaviorSet H (clock id) flag data

/-- The clients after the loop of `memcached_pool_behavior_set` over the slots of the pool. -/
def setClients (H : Hashkit.Hashes) (clock : Nat → Nat) (s : PoolClients) (flag : Behavior)
    (data : UInt64) (id : Nat) : Memcached :=
  if id ∈ s.sys.pool.free.map (·.id) then (s.setClient H clock flag data id).2 else s.client id

/-- What `memcached_behavior_set` returns on the client in a slot. -/
def setSlot (H : Hashkit.Hashes) (clock : Nat → Nat) (s : PoolClients) (flag : Behavior)
    (data : UInt64) (xx : Nat) : ReturnT :=
  match s.sys.pool.load xx with
  | some c => (s.setClient H clock flag data c.id).1
  | none => .success

/-- `memcached_pool_behavior_set`. -/
def behaviorSet (H : Hashkit.Hashes) (now : Nat) (clock : Nat → Nat) (s : PoolClients)
    (flag : Behavior) (data : UInt64) : Option PoolClients := do
  let (rc, master) := s.master.behaviorSet H now flag data
  let sys ← s.sys.step (.behaviorSet rc (s.setSlot H clock flag data) fun _ => true)
  let client := if rc.isFailed then s.client else s.setClients H clock flag data
  return { sys := sys, master := master, client := s.withClones H clock master client }

/-- One critical section. -/
def step (H : Hashkit.Hashes) (now : Nat) (clock : Nat → Nat) (s : PoolClients) :
    PoolCall → Option PoolClients
  | .fetch thread waits => s.enter H clock (.fetch thread waits true)
  | .wake thread wakeup => s.enter H clock (.wake thread wakeup true)
  | .release thread client => s.enter H clock (.release thread client true)
  | .behaviorSet flag data => s.behaviorSet H now clock flag data

/-- What a thread may call, as in `PoolSystem.Enabled`; a behaviour is set successfully. -/
def Enabled (H : Hashkit.Hashes) (now : Nat) (s : PoolClients) : PoolCall → Prop
  | .fetch thread waits => s.sys.Enabled (.fetch thread waits true)
  | .wake thread wakeup => s.sys.Enabled (.wake thread wakeup true)
  | .release thread client => s.sys.Enabled (.release thread client true)
  | .behaviorSet flag data => (s.master.behaviorSet H now flag data).1.isSuccess = true

/-- `memcached_pool_create`. -/
def create (H : Hashkit.Hashes) (clock : Nat → Nat) (version : Int32) (master : Memcached)
    (initial max : Nat) : Option (Option PoolClients) := do
  let pool ← memcachedPoolCreate version initial max fun _ => true
  return pool.map fun pool =>
    { sys := { pool := pool }, master := master
      client := fun id => (master.clone H (clock id)).getD master }

/-- The states that the threads can bring the pool to with calls that are all `ok`, and the flags
that were set on the way. -/
inductive Reaches (H : Hashkit.Hashes) (ok : PoolClients → PoolCall → Prop) (start : PoolClients) :
    List Behavior → PoolClients → Prop where
  | start : Reaches H ok start [] start
  | call {flags : List Behavior} {s s' : PoolClients} {call : PoolCall} {now : Nat}
    {clock : Nat → Nat} (h : Reaches H ok start flags s) (enabled : s.Enabled H now call)
    (guarded : ok s call) (next : s.step H now clock call = some s') :
    Reaches H ok start (call.flag?.toList ++ flags) s'

end PoolClients

end LM
