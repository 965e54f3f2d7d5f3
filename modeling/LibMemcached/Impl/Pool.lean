import LibMemcached.Impl.Return

/-!
# The connection pool

`libmemcachedutil/pool.cc`: a stack of clones of a master client (`server_pool`, of which the slots up
to `firstfree` are in use) that grows up to a maximum. Every access to `server_pool` is checked: a
function returns `none` if it touches a slot outside the array, or reads one that was never written.

The mutex makes each critical section one step. What the pool does not decide itself is given with
the step: whether `memcached_clone` succeeds, what `memcached_behavior_set` returns, and how
`pthread_cond_timedwait` ends.
-/

namespace LM

/-- A clone of the master. A clone is told from all others by its number in the order they were
made; `version` is its `configure.version`. -/
structure Clone where
  id : Nat
  version : Int32
  deriving DecidableEq

/-- `memcached_pool_st`. -/
structure Pool where
  /-- The `size` slots of `server_pool`; `none` is a slot that was not written yet. -/
  serverPool : List (Option Clone)
  /-- An `int`. -/
  firstfree : Int
  size : Nat
  currentSize : Nat
  /-- `configure.version` of the master. -/
  version : Int32
  /-- The number of clones made so far, which no modelled function reads but to number the next. -/
  clones : Nat

/-- `++` on an `int`. -/
def nextInt (x : Int) : Int := Int.bmod (x + 1) (2 ^ 32)

namespace Pool

/-- A write to `server_pool[x]`. -/
def store (pool : Pool) (x : Int) (client : Clone) : Option Pool :=
  if 0 ≤ x ∧ x < pool.size then
    some { pool with serverPool := pool.serverPool.set x.toNat (some client) }
  else none

/-- A read of `server_pool[x]`. -/
def load (pool : Pool) (x : Int) : Option Clone :=
  if 0 ≤ x ∧ x < pool.size then pool.serverPool[x.toNat]?.join else none

/-- The clients in `server_pool[0..firstfree]`. -/
def free (pool : Pool) : List Clone :=
  (pool.serverPool.take (pool.firstfree + 1).toNat).filterMap id

/-- `memcached_clone` of the master: the version is copied. -/
def clone (pool : Pool) : Clone × Pool :=
  (⟨pool.clones, pool.version⟩, { pool with clones := pool.clones + 1 })

/-- `grow_pool`. -/
def growPool (pool : Pool) (cloned : Bool) : Option (Bool × Pool) := do
  if cloned then
    let (obj, pool) := pool.clone
    let pool ← pool.store (nextInt pool.firstfree) obj
    return (true, { pool with
      firstfree := nextInt pool.firstfree, currentSize := (pool.currentSize + 1) % 2 ^ 32 })
  else return (false, pool)

/-- The loop of `memcached_pool_st::init`: `n` more clones, of which number `x` is the next. -/
def initLoop (cloned : Nat → Bool) : Nat → Nat → Pool → Option Pool
  | 0, _, pool => some pool
  | n + 1, x, pool => do
    let (grown, pool) ← pool.growPool (cloned x)
    if grown then initLoop cloned n (x + 1) pool else return pool

end Pool

/-- `memcached_pool_create`: the inner `none` is the null pointer. -/
def memcachedPoolCreate (version : Int32) (initial max : Nat) (cloned : Nat → Bool) :
    Option (Option Pool) := do
  if initial = 0 ∨ max = 0 ∨ max < initial then return none
  else
    let pool ← Pool.initLoop cloned initial 0
      { serverPool := List.replicate max none, firstfree := -1, size := max, currentSize := 0,
        version := version, clones := 0 }
    return some pool

/-- How a critical section of `memcached_pool_st::fetch` ends. -/
inductive Fetched where
  /-- A client is returned. -/
  | client (c : Clone)
  /-- `MEMCACHED_NOTFOUND`. -/
  | notFound
  /-- The mutex is released in `pthread_cond_timedwait`. -/
  | waiting
  /-- The null pointer is returned, since no clone could be made. -/
  | failed
  deriving DecidableEq

namespace Pool

/-- The loop of `memcached_pool_st::fetch`. After a round that grew the pool there is a client to
take, so two rounds are enough. -/
def fetchLoop (waits cloned : Bool) : Nat → Pool → Option (Fetched × Pool)
  | 0, _ => none
  | fuel + 1, pool =>
    if -1 < pool.firstfree then do
      let ret ← pool.load pool.firstfree
      return (.client ret, { pool with firstfree := pool.firstfree - 1 })
    else if pool.currentSize = pool.size then
      return (if waits then .waiting else .notFound, pool)
    else do
      let (grown, pool) ← pool.growPool cloned
      if grown then fetchLoop waits cloned fuel pool else return (.failed, pool)

/-- `memcached_pool_st::fetch` up to its end or to a wait. It waits if the relative time is not
zero. -/
def fetch (pool : Pool) (waits cloned : Bool) : Option (Fetched × Pool) :=
  fetchLoop waits cloned 2 pool

/-- `compare_version`. -/
def compareVersion (pool : Pool) (client : Clone) : Bool := client.version == pool.version

/-- `memcached_pool_st::release` of a client. -/
def release (pool : Pool) (released : Clone) (cloned : Bool) : Option Pool := do
  let (released, pool) :=
    if !pool.compareVersion released && cloned then pool.clone else (released, pool)
  let pool ← pool.store (nextInt pool.firstfree) released
  return { pool with firstfree := nextInt pool.firstfree }

/-- The loop of `memcached_pool_behavior_set` over the clones in the pool. It leaves at the end of
the stack; the bound on the rounds covers one more, which an overflow of `xx` would make. -/
def behaviorLoop (rcs : Nat → ReturnT) (cloned : Nat → Bool) : Nat → Int → Pool → Option Pool
  | 0, _, _ => none
  | fuel + 1, xx, pool =>
    if xx ≤ pool.firstfree then do
      let client ← pool.load xx
      let pool ←
        (if (rcs xx.toNat).isSuccess then pool.store xx { client with version := pool.version }
        else if cloned xx.toNat then
          let (memc, pool) := pool.clone
          pool.store xx memc
        else some pool)
      behaviorLoop rcs cloned fuel (nextInt xx) pool
    else some pool

/-- `memcached_pool_behavior_set`: `rc` is what `memcached_behavior_set` returns for the master, `rcs`
what it returns for the clone in each slot. -/
def behaviorSet (pool : Pool) (rc : ReturnT) (rcs : Nat → ReturnT) (cloned : Nat → Bool) :
    Option (ReturnT × Pool) := do
  if rc.isFailed then return (rc, pool)
  else
    let pool ← behaviorLoop rcs cloned (pool.firstfree.toNat + 3) 0
      { pool with version := pool.version + 1 }
    return (rc, pool)

end Pool

/-! ## The threads -/

/-- The pool and its users: the clients each thread holds, and the threads that wait for one. -/
structure PoolSystem where
  pool : Pool
  held : List (Nat × Clone) := []
  waiting : List Nat := []

/-- How `pthread_cond_timedwait` ends: by a wakeup, which may be spurious, or by an error, of which
the time-out is one. -/
inductive Wakeup where
  | woken
  | error
  deriving DecidableEq

/-- The critical sections that the threads enter. -/
inductive PoolEvent where
  /-- `memcached_pool_fetch`. -/
  | fetch (thread : Nat) (waits cloned : Bool)
  /-- `pthread_cond_timedwait` returns, and `fetch` goes on. -/
  | wake (thread : Nat) (wakeup : Wakeup) (cloned : Bool)
  /-- `memcached_pool_release`. -/
  | release (thread : Nat) (client : Clone) (cloned : Bool)
  /-- `memcached_pool_behavior_set`. -/
  | behaviorSet (rc : ReturnT) (rcs : Nat → ReturnT) (cloned : Nat → Bool)

namespace PoolSystem

/-- A thread that waits does nothing else, and a thread releases only what it holds. -/
def Enabled (sys : PoolSystem) : PoolEvent → Prop
  | .fetch thread _ _ => thread ∉ sys.waiting
  | .wake thread _ _ => thread ∈ sys.waiting
  | .release thread client _ => thread ∉ sys.waiting ∧ (thread, client) ∈ sys.held
  | .behaviorSet _ _ _ => True

/-- What a thread has after a critical section of `fetch`. -/
def fetched (sys : PoolSystem) (thread : Nat) (ret : Fetched) (pool : Pool) : PoolSystem :=
  match ret with
  | .client c => { sys with pool := pool, held := (thread, c) :: sys.held }
  | .waiting => { sys with pool := pool, waiting := thread :: sys.waiting }
  | .notFound | .failed => { sys with pool := pool }

/-- One critical section. -/
def step (sys : PoolSystem) : PoolEvent → Option PoolSystem
  | .fetch thread waits cloned => do
    let (ret, pool) ← sys.pool.fetch waits cloned
    return sys.fetched thread ret pool
  | .wake thread .woken cloned => do
    let (ret, pool) ← sys.pool.fetch true cloned
    return { sys with waiting := sys.waiting.erase thread }.fetched thread ret pool
  | .wake thread .error _ => some { sys with waiting := sys.waiting.erase thread }
  | .release thread client cloned => do
    let pool ← sys.pool.release client cloned
    return { sys with pool := pool, held := sys.held.erase (thread, client) }
  | .behaviorSet rc rcs cloned => do
    let (_, pool) ← sys.pool.behaviorSet rc rcs cloned
    return { sys with pool := pool }

/-- The states that the threads can bring the pool to. -/
inductive Reaches (start : PoolSystem) : PoolSystem → Prop where
  | start : Reaches start start
  | step {sys sys' : PoolSystem} {event : PoolEvent} (h : Reaches start sys)
    (enabled : sys.Enabled event) (next : sys.step event = some sys') : Reaches start sys'

end PoolSystem

end LM
