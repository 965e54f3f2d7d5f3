import LibMemcached.Impl.Pool

/-!
# Waiting for a client of the pool

The whole of `memcached_pool_fetch` and `memcached_pool_pop`, with the codes they report, and the condition
variable of the pool: which of the threads in `pthread_cond_timedwait` were not woken since they began to
wait.
-/

namespace LM

/-! ## What a call reports -/

/-- How `pthread_cond_timedwait` ends. -/
inductive WaitEnd where
  | woken
  | timedOut
  | error
  deriving DecidableEq

/-- A critical section of `memcached_pool_st::fetch`: the pool as the other threads left it, whether
`memcached_clone` succeeds, and how the wait ends, if it ends in one. -/
structure FetchSection where
  pool : Pool
  cloned : Bool
  waitEnd : WaitEnd

/-- `struct timespec`. -/
structure Timespec where
  sec : Int
  nsec : Int

/-- `memcached_pool_st::fetch` from the lock on: the client and the code, and the sections that were not
entered. There is no result while the thread waits. -/
def fetchSections (waits : Bool) : List FetchSection → Option ((Option Clone × ReturnT) × List FetchSection)
  | [] => none
  | s :: rest => do
    let (ret, _) ← s.pool.fetch waits s.cloned
    match ret with
    | .client c => return ((some c, .success), rest)
    | .notFound => return ((none, .notFound), rest)
    | .failed => return ((none, .success), rest)
    | .waiting =>
      match s.waitEnd with
      | .woken => fetchSections waits rest
      | .timedOut => return ((none, .timeout), rest)
      | .error => return ((none, .errno), rest)

/-- `memcached_pool_st::fetch`; `locked` is whether `pthread_mutex_lock` succeeds. -/
def poolFetch (relativeTime : Timespec) (locked : Bool) (sections : List FetchSection) :
    Option ((Option Clone × ReturnT) × List FetchSection) :=
  if !locked then some ((none, .inProgress), sections)
  else fetchSections (!(relativeTime.sec == 0 && relativeTime.nsec == 0)) sections

/-- `memcached_pool_fetch` on a pool. -/
def memcachedPoolFetch (relativeTime : Option Timespec) (locked : Bool) (sections : List FetchSection) :
    Option ((Option Clone × ReturnT) × List FetchSection) :=
  poolFetch (relativeTime.getD ⟨0, 0⟩) locked sections

/-- `memcached_pool_pop` on a pool, whose `_timeout` is five seconds. -/
def memcachedPoolPop (block locked : Bool) (sections : List FetchSection) :
    Option ((Option Clone × ReturnT) × List FetchSection) :=
  poolFetch (if block then ⟨5, 0⟩ else ⟨0, 0⟩) locked sections

/-! ## The condition variable -/

/-- The pool with its users, and the threads that wait and were not woken since they began to. -/
structure SleepSystem extends PoolSystem where
  asleep : List Nat := []

namespace SleepSystem

/-- A critical section of `fetch` ends in `pthread_cond_timedwait`. -/
def fallsAsleep (s : SleepSystem) (waits cloned : Bool) : Bool :=
  (s.pool.fetch waits cloned).any (·.1 == .waiting)

/-- The threads that are asleep after a critical section, which leaves the pool `pool`: `release` wakes all
of them if the client it puts back is the only one and the pool cannot grow. -/
def asleepAfter (s : SleepSystem) (pool : Pool) : PoolEvent → List Nat
  | .fetch thread waits cloned => if s.fallsAsleep waits cloned then thread :: s.asleep else s.asleep
  | .wake thread .woken cloned =>
    let others := s.asleep.filter (· ≠ thread)
    if s.fallsAsleep true cloned then thread :: others else others
  | .wake thread .error _ => s.asleep.filter (· ≠ thread)
  | .release _ _ _ => if pool.firstfree = 0 ∧ pool.currentSize = pool.size then [] else s.asleep
  | .behaviorSet _ _ _ => s.asleep

/-- One critical section. -/
def step (s : SleepSystem) (event : PoolEvent) : Option SleepSystem := do
  let sys ← s.toPoolSystem.step event
  return { sys with asleep := s.asleepAfter sys.pool event }

/-- A step that the threads can take. -/
def Moves (s s' : SleepSystem) : Prop := ∃ event, s.Enabled event ∧ s.step event = some s'

end SleepSystem

end LM
