import LibMemcached.Impl.PoolWaits
import Mathlib.Logic.Relation

/-!
# Threads that wait for the pool

A thread that waits and was not woken waits for a pool that is exhausted (`no_lost_wakeup`): nothing but a
release changes an exhausted pool, and that release wakes all threads. The code that a fetch reports is
right unless `memcached_clone` fails in it, which is reported as a success (`pool_fetch_truthful_iff`).
-/

namespace LM

open List

variable {cloned waits : Bool} {ret : Fetched} {pool : Pool} {fuel : Nat} {pool' : Pool}
  {out : Option Clone × ReturnT} {sections : List FetchSection}

/-! ## No lost wake-up -/

namespace Pool

variable {pool pool' : Pool}

/-- There is no client in the pool, and the pool does not grow. -/
structure Exhausted (pool : Pool) : Prop where
  firstfree : pool.firstfree = -1
  currentSize : pool.currentSize = pool.size

theorem store_eq {x : Int} {client : Clone} (h : pool.store x client = some pool') :
    0 ≤ x ∧ pool' = { pool with serverPool := pool.serverPool.set x.toNat (some client) } := by
  unfold store at h
  split at h
  · rename_i hx
    cases h
    exact ⟨hx.1, rfl⟩
  · cases h

theorem growPool_firstfree {grown : Bool} (h : pool.growPool cloned = some (grown, pool'))
    (h0 : -1 ≤ pool.firstfree) : -1 ≤ pool'.firstfree := by
  cases cloned with
  | false =>
    cases h
    exact h0
  | true =>
    simp only [growPool, clone, if_true, Option.bind_eq_bind, Option.bind_eq_some_iff] at h
    obtain ⟨stored, hstore, hret⟩ := h
    obtain ⟨hx, rfl⟩ := store_eq hstore
    cases hret
    exact Int.le_trans (by decide) hx

theorem fetchLoop_counters (h : pool.fetchLoop waits cloned fuel = some (ret, pool'))
    (h0 : -1 ≤ pool.firstfree) :
    -1 ≤ pool'.firstfree ∧ (pool.Exhausted → pool' = pool) ∧ (ret = .waiting → pool'.Exhausted) := by
  induction fuel generalizing pool with
  | zero => cases h
  | succ fuel ih =>
    rw [fetchLoop] at h
    split at h
    · rename_i hfree
      obtain ⟨c, -, hret⟩ := Option.bind_eq_some_iff.mp h
      cases hret
      exact ⟨by simp only; omega, fun he => absurd he.firstfree (by omega), nofun⟩
    split at h
    · rename_i hfree hsize
      cases h
      exact ⟨h0, fun _ => rfl, fun _ => ⟨by omega, hsize⟩⟩
    · rename_i hsize
      obtain ⟨⟨grown, grownPool⟩, hgrow, hrest⟩ := Option.bind_eq_some_iff.mp h
      have hgrown := growPool_firstfree hgrow h0
      cases grown with
      | true =>
        obtain ⟨h1, -, h3⟩ := ih hrest hgrown
        exact ⟨h1, fun he => absurd he.currentSize hsize, h3⟩
      | false =>
        cases hrest
        exact ⟨hgrown, fun he => absurd he.currentSize hsize, nofun⟩

theorem release_counters {released : Clone} (h : pool.release released cloned = some pool') :
    0 ≤ pool'.firstfree ∧ pool'.firstfree = nextInt pool.firstfree ∧ pool'.currentSize = pool.currentSize ∧
      pool'.size = pool.size := by
  unfold release at h
  have hclone : ∀ q : Clone × Pool, (q = pool.clone ∨ q = (released, pool)) → q.2.firstfree = pool.firstfree ∧
      q.2.currentSize = pool.currentSize ∧ q.2.size = pool.size := by
    rintro q (rfl | rfl) <;> exact ⟨rfl, rfl, rfl⟩
  have hq := hclone (if !pool.compareVersion released && cloned then pool.clone else (released, pool))
    (by split <;> simp)
  generalize (if !pool.compareVersion released && cloned then pool.clone else (released, pool)) = q at h hq
  obtain ⟨stored, hstore, hret⟩ := Option.bind_eq_some_iff.mp h
  obtain ⟨hx, rfl⟩ := store_eq hstore
  cases hret
  rw [← hq.1]
  exact ⟨hx, rfl, hq.2⟩

/-- The counters of the pool. -/
def counters (pool : Pool) : Int × Nat × Nat := (pool.firstfree, pool.currentSize, pool.size)

theorem behaviorLoop_counters {rcs : Nat → ReturnT} {cloned : Nat → Bool} {xx : Int}
    (h : pool.behaviorLoop rcs cloned fuel xx = some pool') : pool'.counters = pool.counters := by
  induction fuel generalizing pool xx with
  | zero => cases h
  | succ fuel ih =>
    rw [behaviorLoop] at h
    split at h
    · obtain ⟨client, -, h⟩ := Option.bind_eq_some_iff.mp h
      obtain ⟨stored, hstore, h⟩ := Option.bind_eq_some_iff.mp h
      refine (ih h).trans ?_
      split at hstore
      · rw [(store_eq hstore).2]
        rfl
      split at hstore
      · rw [(store_eq hstore).2]
        rfl
      · cases hstore
        rfl
    · cases h
      rfl

end Pool

namespace SleepSystem

open Pool

/-- The invariant: the threads that are asleep wait for an exhausted pool. -/
structure Watchful (s : SleepSystem) : Prop where
  firstfree : -1 ≤ s.pool.firstfree
  asleep : s.asleep ≠ [] → s.pool.Exhausted

variable {s s' : SleepSystem}

theorem fetched_pool {sys : PoolSystem} {thread : Nat} {pool : Pool} :
    (sys.fetched thread ret pool).pool = pool := by
  cases ret <;> rfl

/-- A critical section of `fetch`, while no thread but `others` and the one in it is asleep. -/
theorem Watchful.fetch (h : s.Watchful) (hfetch : s.pool.fetch waits cloned = some (ret, pool))
    {thread : Nat} {others : List Nat} (hothers : others ≠ [] → s.asleep ≠ []) (hs' : s'.pool = pool)
    (hasleep : s'.asleep = if s.fallsAsleep waits cloned then thread :: others else others) : s'.Watchful := by
  obtain ⟨hfirst, hsame, hwait⟩ := fetchLoop_counters hfetch h.firstfree
  refine ⟨hs' ▸ hfirst, fun hne => hs' ▸ ?_⟩
  by_cases hret : ret = .waiting
  · exact hwait hret
  · rw [hasleep, fallsAsleep, hfetch, Option.any_some, beq_false_of_ne hret] at hne
    have he := h.asleep (hothers hne)
    rwa [hsame he]

theorem Watchful.step (h : s.Watchful) {event : PoolEvent} (hstep : s.step event = some s') : s'.Watchful := by
  obtain ⟨sys, hsys, hs'⟩ := Option.bind_eq_some_iff.mp hstep
  obtain rfl := Option.some.inj hs'
  have filtered (thread : Nat) : s.asleep.filter (· ≠ thread) ≠ [] → s.asleep ≠ [] := by
    rintro hne heq
    exact hne (by rw [heq]; rfl)
  cases event with
  | fetch thread waits cloned =>
    obtain ⟨⟨ret, pool⟩, hfetch, hret⟩ := Option.bind_eq_some_iff.mp hsys
    obtain rfl := Option.some.inj hret
    exact h.fetch hfetch id fetched_pool rfl
  | wake thread wakeup cloned =>
    cases wakeup with
    | woken =>
      obtain ⟨⟨ret, pool⟩, hfetch, hret⟩ := Option.bind_eq_some_iff.mp hsys
      obtain rfl := Option.some.inj hret
      exact h.fetch hfetch (filtered thread) fetched_pool rfl
    | error =>
      obtain rfl := Option.some.inj hsys
      exact ⟨h.firstfree, fun hne => h.asleep (filtered thread hne)⟩
  | release thread client cloned =>
    obtain ⟨pool, hrelease, hret⟩ := Option.bind_eq_some_iff.mp hsys
    obtain rfl := Option.some.inj hret
    obtain ⟨h0, hnext, hcurrent, hsize⟩ := release_counters hrelease
    refine ⟨Int.le_trans (by decide) h0, fun hne => ?_⟩
    -- a thread is asleep after the release only if it was before, and then all are woken
    by_cases hall : pool.firstfree = 0 ∧ pool.currentSize = pool.size
    · exact absurd (if_pos hall) hne
    · have he := h.asleep fun hnil => hne ((if_neg hall).trans hnil)
      refine absurd ⟨?_, by rw [hcurrent, hsize, he.currentSize]⟩ hall
      rw [hnext, he.firstfree]
      decide
  | behaviorSet rc rcs cloned =>
    obtain ⟨⟨rc', pool⟩, hset, hret⟩ := Option.bind_eq_some_iff.mp hsys
    obtain rfl := Option.some.inj hret
    have hcounters : pool.counters = s.pool.counters := by
      unfold behaviorSet at hset
      split at hset
      · cases hset
        rfl
      · obtain ⟨looped, hloop, hret⟩ := Option.bind_eq_some_iff.mp hset
        cases hret
        exact (behaviorLoop_counters hloop).trans rfl
    obtain ⟨hfirst, hrest⟩ := Prod.mk.inj hcounters
    obtain ⟨hcurrent, hsize⟩ := Prod.mk.inj hrest
    refine ⟨Int.le_trans h.firstfree (Int.le_of_eq hfirst.symm), fun hne => ?_⟩
    have he := h.asleep hne
    exact ⟨hfirst.trans he.firstfree, by rw [hcurrent, hsize, he.currentSize]⟩

theorem Watchful.run (h : s.Watchful) (hr : Relation.ReflTransGen Moves s s') : s'.Watchful := by
  induction hr with
  | refl => exact h
  | tail _ hmove ih =>
    obtain ⟨event, -, hstep⟩ := hmove
    exact ih.step hstep

end SleepSystem

theorem Pool.initLoop_firstfree {cloned : Nat → Bool} {n x : Nat}
    (h : Pool.initLoop cloned n x pool = some pool') (h0 : -1 ≤ pool.firstfree) : -1 ≤ pool'.firstfree := by
  induction n generalizing x pool with
  | zero =>
    cases h
    exact h0
  | succ n ih =>
    obtain ⟨⟨grown, grownPool⟩, hgrow, hrest⟩ := Option.bind_eq_some_iff.mp h
    have hgrown := growPool_firstfree hgrow h0
    cases grown with
    | true => exact ih hrest hgrown
    | false =>
      cases hrest
      exact hgrown

/-- Whatever the threads do with a pool that was created, one that waits and was not woken since it began to
wait finds no client in the pool, which does not grow. -/
theorem no_lost_wakeup {version : Int32} {initial max : Nat} {cloned : Nat → Bool} {pool : Pool}
    (hcreate : memcachedPoolCreate version initial max cloned = some (some pool)) {s : SleepSystem}
    (hrun : Relation.ReflTransGen SleepSystem.Moves { pool := pool } s) {thread : Nat} (h : thread ∈ s.asleep) :
    s.pool.firstfree = -1 ∧ s.pool.currentSize = s.pool.size := by
  have hfirst : -1 ≤ pool.firstfree := by
    unfold memcachedPoolCreate at hcreate
    split at hcreate
    · cases hcreate
    · obtain ⟨filled, hinit, hret⟩ := Option.bind_eq_some_iff.mp hcreate
      cases hret
      exact Pool.initLoop_firstfree hinit (Int.le_refl _)
  have hs := SleepSystem.Watchful.run (s := { pool := pool }) ⟨hfirst, fun hne => absurd rfl hne⟩ hrun
  have he := hs.asleep (ne_nil_of_mem h)
  exact ⟨he.firstfree, he.currentSize⟩

/-- A pool of one client. -/
def onePool : Pool where
  serverPool := [some ⟨0, 0⟩]
  firstfree := 0
  size := 1
  currentSize := 1
  version := 0
  clones := 1

/-- One thread took the client of the pool, and another waits for it. -/
theorem no_lost_wakeup_two :
    ∃ s : SleepSystem, Relation.ReflTransGen SleepSystem.Moves { pool := onePool } s ∧ 1 ∈ s.asleep ∧
      s.pool.firstfree = -1 ∧ s.pool.currentSize = s.pool.size := by
  have hcreate : memcachedPoolCreate 0 1 1 (fun _ => true) = some (some onePool) := rfl
  let taken : Pool := { onePool with firstfree := -1 }
  have hrun : Relation.ReflTransGen SleepSystem.Moves { pool := onePool }
      { pool := taken, held := [(0, ⟨0, 0⟩)], waiting := [1], asleep := [1] } :=
    .tail (.single ⟨.fetch 0 true true, nofun, rfl⟩) ⟨.fetch 1 true true, nofun, rfl⟩
  exact ⟨_, hrun, mem_singleton_self 1, no_lost_wakeup hcreate hrun (mem_singleton_self 1)⟩

/-! ## The code of a fetch -/

/-- In this critical section no clone is needed, or one can be made. -/
def FetchSection.Clones (s : FetchSection) : Prop :=
  -1 < s.pool.firstfree ∨ s.pool.currentSize = s.pool.size ∨ s.cloned = true

/-- A client is returned just if the code is `MEMCACHED_SUCCESS`, and none just if it is a failure. -/
def Truthful (out : Option Clone × ReturnT) : Prop :=
  (out.1.isSome = true ↔ out.2 = .success) ∧ (out.1 = none ↔ out.2.isFailed = true)

theorem Pool.fetch_failed_iff (h : pool.fetch waits cloned = some (ret, pool')) :
    ret = .failed ↔ ¬(-1 < pool.firstfree ∨ pool.currentSize = pool.size ∨ cloned = true) := by
  rw [fetch, fetchLoop] at h
  split at h
  · rename_i hfree
    obtain ⟨c, -, hret⟩ := Option.bind_eq_some_iff.mp h
    cases hret
    exact iff_of_false nofun (not_not_intro (.inl hfree))
  rename_i hfree
  split at h
  · rename_i hsize
    cases h
    exact iff_of_false (by split <;> nofun) (not_not_intro (.inr (.inl hsize)))
  rename_i hsize
  obtain ⟨⟨grown, grownPool⟩, hgrow, hrest⟩ := Option.bind_eq_some_iff.mp h
  cases cloned with
  | false =>
    cases hgrow
    cases hrest
    exact iff_of_true rfl (by simp only [hfree, hsize, Bool.false_eq_true, or_self, not_false_eq_true])
  | true =>
    -- the clone that was made is taken in the second round
    obtain ⟨stored, hstore, hret⟩ := Option.bind_eq_some_iff.mp hgrow
    obtain ⟨hx, rfl⟩ := store_eq hstore
    cases hret
    have hsecond : fetchLoop waits true 1 _ = some (ret, pool') := hrest
    rw [fetchLoop, if_pos (Int.lt_of_lt_of_le (by decide) hx)] at hsecond
    obtain ⟨c, -, hret⟩ := Option.bind_eq_some_iff.mp hsecond
    cases hret
    exact iff_of_false nofun (not_not_intro (.inr (.inr rfl)))

theorem fetchSections_truthful_iff (h : fetchSections waits sections = some (out, [])) :
    Truthful out ↔ ∀ s ∈ sections, s.Clones := by
  induction sections with
  | nil => cases h
  | cons s rest ih =>
    obtain ⟨⟨ret, pool⟩, hfetch, hret⟩ := Option.bind_eq_some_iff.mp h
    have hclones (hne : ret ≠ .failed) : s.Clones :=
      Classical.byContradiction fun hnot => hne ((Pool.fetch_failed_iff hfetch).mpr hnot)
    -- a section that ends the call with the right code
    have right {out : Option Clone × ReturnT} (hne : ret ≠ .failed) (htrue : Truthful out) :
        Truthful out ↔ ∀ t ∈ [s], t.Clones :=
      iff_of_true htrue fun t ht => mem_singleton.mp ht ▸ hclones hne
    cases ret with
    | client c =>
      cases hret
      exact right (by simp) (by simp [Truthful, ReturnT.isFailed])
    | notFound =>
      cases hret
      exact right (by simp) (by simp [Truthful, ReturnT.isFailed])
    | failed =>
      cases hret
      refine iff_of_false (by simp [Truthful]) fun hall => ?_
      exact (Pool.fetch_failed_iff hfetch).mp rfl (hall s (mem_singleton_self s))
    | waiting =>
      dsimp only at hret
      split at hret
      · rw [ih hret, forall_mem_cons, and_iff_right (hclones (by simp))]
      all_goals
        cases hret
        exact right (by simp) (by simp [Truthful, ReturnT.isFailed])

theorem poolFetch_truthful_iff {time : Timespec} {locked : Bool}
    (h : poolFetch time locked sections = some (out, [])) : Truthful out ↔ ∀ s ∈ sections, s.Clones := by
  cases locked with
  | true => exact fetchSections_truthful_iff h
  | false =>
    cases h
    exact iff_of_true (by simp [Truthful, ReturnT.isFailed]) nofun

/-- Both calls report the truth just if in each critical section they enter a clone that is needed can be
made. -/
theorem pool_fetch_truthful_iff (locked : Bool) (sections : List FetchSection) (out : Option Clone × ReturnT) :
    (∀ time, memcachedPoolFetch time locked sections = some (out, []) →
      (Truthful out ↔ ∀ s ∈ sections, s.Clones)) ∧
    ∀ block, memcachedPoolPop block locked sections = some (out, []) →
      (Truthful out ↔ ∀ s ∈ sections, s.Clones) :=
  ⟨fun _ => poolFetch_truthful_iff, fun _ => poolFetch_truthful_iff⟩

/-- A client is fetched that another thread put back while the call waited. -/
theorem pool_fetch_truthful_iff_woken :
    let sections : List FetchSection :=
      [⟨{ onePool with firstfree := -1 }, true, .woken⟩, ⟨onePool, true, .woken⟩]
    memcachedPoolFetch (some ⟨1, 0⟩) true sections = some ((some ⟨0, 0⟩, .success), []) ∧
      Truthful (some ⟨0, 0⟩, .success) := by
  intro sections
  refine ⟨rfl, ((pool_fetch_truthful_iff true sections _).1 (some ⟨1, 0⟩) rfl).mpr fun s hs => ?_⟩
  rcases mem_cons.mp hs with rfl | hs
  · exact .inr (.inl rfl)
  · rw [mem_singleton.mp hs]
    exact .inl (by decide)

/-- A pool that could make no clone yet: the next fetch fails to make one too, returns no client, and reports
success. -/
theorem pool_fetch_lies :
    ∃ pool, memcachedPoolCreate 0 1 1 (fun _ => false) = some (some pool) ∧
      memcachedPoolFetch none true [⟨pool, false, .woken⟩] = some ((none, .success), []) :=
  ⟨_, rfl, rfl⟩

end LM
