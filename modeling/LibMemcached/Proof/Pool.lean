import LibMemcached.Impl.Pool
import Mathlib.Data.List.Perm.Basic

/-!
# The pool conserves its clients

The used slots of `server_pool` are a stack (`Pool.Holds`), and together with the clients that the
threads hold they are all the clients the pool has made and not replaced: no two are the same and
their number is `current_size` (`Pool.Owns`). Each critical section keeps this, whatever cloning does,
so it holds in every state that the threads can reach (`pool_conserves_clients`), and no access leaves
the array.

The index `firstfree` is an `int` while the sizes are unsigned, so the maximum has to be below `2 ^ 31`.
For a larger one the index overflows while the pool is created (`pool_overflows`).
-/

namespace LM

open List

variable {x : Nat} {held' stack' : List Clone} {pool' : Pool} {sys : PoolSystem} {n : Nat} {max : Nat}

theorem nextInt_eq {x : Int} (h : -1 ≤ x) (h' : x + 1 < 2 ^ 31) : nextInt x = x + 1 := by
  unfold nextInt
  rw [Int.bmod_eq_of_le] <;> omega

namespace Pool

/-- The used slots of the array hold `stack`, the last client on top. -/
structure Holds (pool : Pool) (stack : List Clone) : Prop where
  small : pool.size < 2 ^ 31
  firstfree : pool.firstfree = stack.length - 1
  slots : ∃ rest, pool.serverPool = stack.map some ++ rest ∧ stack.length + rest.length = pool.size

variable {pool : Pool} {stack held : List Clone}

theorem Holds.free_eq (h : pool.Holds stack) : pool.free = stack := by
  obtain ⟨rest, hslots, -⟩ := h.slots
  have hlen : (pool.firstfree + 1).toNat = (stack.map some).length := by
    rw [h.firstfree, length_map]
    omega
  rw [free, hslots, hlen, take_left]
  simp

theorem Holds.length_le (h : pool.Holds stack) : stack.length ≤ pool.size := by
  obtain ⟨rest, -, hlen⟩ := h.slots
  omega

theorem Holds.push (h : pool.Holds stack) (hroom : stack.length < pool.size) (client : Clone) :
    ∃ slots, pool.store (nextInt pool.firstfree) client = some { pool with serverPool := slots } ∧
      Holds { pool with serverPool := slots, firstfree := nextInt pool.firstfree }
        (stack ++ [client]) := by
  obtain ⟨rest, hslots, hlen⟩ := h.slots
  have hsmall := h.small
  have hnext : nextInt pool.firstfree = stack.length := by
    rw [nextInt_eq] <;> rw [h.firstfree] <;> omega
  obtain ⟨slot, rest, rfl⟩ := exists_cons_of_length_pos (l := rest) (by omega)
  refine ⟨_, by rw [store, if_pos (by rw [hnext]; omega)], hsmall, ?_, rest, ?_, ?_⟩
  · show nextInt pool.firstfree = _
    rw [hnext, length_append]
    simp
  · show pool.serverPool.set _ _ = _
    rw [hslots, hnext]
    simp
  · rw [length_cons] at hlen
    rw [length_append]
    show stack.length + 1 + rest.length = pool.size
    omega

theorem Holds.pop {client : Clone} (h : pool.Holds (stack ++ [client])) :
    pool.load pool.firstfree = some client ∧
      Holds { pool with firstfree := pool.firstfree - 1 } stack := by
  obtain ⟨rest, hslots, hlen⟩ := h.slots
  have hfirst := h.firstfree
  rw [length_append, length_singleton] at hlen hfirst
  have htop : pool.firstfree = stack.length := by omega
  refine ⟨?_, h.small, by show pool.firstfree - 1 = _; omega, some client :: rest, ?_, ?_⟩
  · rw [load, if_pos (by omega), htop, hslots]
    simp
  · simp [hslots]
  · show stack.length + (rest.length + 1) = pool.size
    omega

theorem Holds.getElem (h : pool.Holds stack) (hx : x < stack.length) : pool.load x = some stack[x] := by
  obtain ⟨rest, hslots, hlen⟩ := h.slots
  rw [load, if_pos (by omega), hslots]
  simp [List.getElem?_append_left, hx]

theorem Holds.set (h : pool.Holds stack) (hx : x < stack.length) (client : Clone) :
    ∃ slots, pool.store x client = some { pool with serverPool := slots } ∧
      Holds { pool with serverPool := slots } (stack.set x client) := by
  obtain ⟨rest, hslots, hlen⟩ := h.slots
  refine ⟨pool.serverPool.set x (some client), by rw [store, if_pos (by omega), Int.toNat_natCast],
    h.small, ?_, rest, ?_, ?_⟩
  · rw [length_set]
    exact h.firstfree
  · show pool.serverPool.set _ _ = _
    rw [hslots, set_append_left _ _ (by simpa using hx), map_set]
  · rw [length_set]
    exact hlen

/-- The clients in the pool and the clients `held` by the threads are all there are: they are
distinct, and `current_size` is their number. -/
structure Owns (pool : Pool) (stack held : List Clone) : Prop where
  holds : pool.Holds stack
  distinct : ((stack ++ held).map (·.id)).Nodup
  count : (stack ++ held).length = pool.currentSize
  bounded : pool.currentSize ≤ pool.size
  made : ∀ c ∈ stack ++ held, c.id < pool.clones

section

variable (h : pool.Owns stack held)
include h

theorem Owns.fresh : pool.clones ∉ (stack ++ held).map (·.id) := by
  intro hmem
  obtain ⟨c, hc, hid⟩ := mem_map.mp hmem
  exact absurd (h.made c hc) (by omega)

/-- Only how the clients are shared out between the pool and the threads changes. -/
theorem Owns.perm (hp : (stack' ++ held').Perm (stack ++ held)) (hholds : pool'.Holds stack')
    (hsize : pool'.size = pool.size) (hcur : pool'.currentSize = pool.currentSize)
    (hclones : pool'.clones = pool.clones) : pool'.Owns stack' held' where
  holds := hholds
  distinct := (hp.map _).nodup_iff.mpr h.distinct
  count := hp.length_eq.trans (h.count.trans hcur.symm)
  bounded := by
    rw [hcur, hsize]
    exact h.bounded
  made c hc := by
    rw [hclones]
    exact h.made c (hp.subset hc)

/-- A new clone takes the place of `old`, if there is such a client, or is added. -/
theorem Owns.replace (old rest : List Clone) (new : Clone) (hold : (stack ++ held).Perm (old ++ rest))
    (hnew : (stack' ++ held').Perm (new :: rest)) (hid : new.id = pool.clones)
    (hholds : pool'.Holds stack') (hcur : pool'.currentSize + old.length = pool.currentSize + 1)
    (hbound : pool'.currentSize ≤ pool'.size) (hclones : pool'.clones = pool.clones + 1) :
    pool'.Owns stack' held' where
  holds := hholds
  distinct := by
    refine (hnew.map _).nodup_iff.mpr (nodup_cons.mpr ⟨fun hmem => h.fresh ?_, ?_⟩)
    · rw [← hid]
      exact (hold.map _).symm.subset (by rw [map_append]; exact mem_append_right _ hmem)
    · have := (hold.map (·.id)).nodup_iff.mp h.distinct
      rw [map_append] at this
      exact (nodup_append.mp this).2.1
  count := by
    have h₁ := hold.length_eq
    have h₂ := hnew.length_eq
    have h₃ := h.count
    simp only [length_append, length_cons] at *
    omega
  bounded := hbound
  made c hc := by
    rw [hclones]
    rcases mem_cons.mp (hnew.subset hc) with rfl | hmem
    · omega
    · have := h.made c (hold.symm.subset (mem_append_right _ hmem))
      omega

/-! ## The critical sections -/

theorem growPool_owns (hroom : pool.currentSize < pool.size) (cloned : Bool) :
    ∃ grown pool', pool.growPool cloned = some (grown, pool') ∧ pool'.size = pool.size ∧
      pool'.version = pool.version ∧ ((grown = false ∧ pool' = pool ∧ cloned = false) ∨
        (grown = true ∧ pool'.clones = pool.clones + 1 ∧ pool'.Owns (stack ++ [pool.clone.1]) held)) := by
  cases cloned with
  | false => exact ⟨false, pool, rfl, rfl, rfl, .inl ⟨rfl, rfl, rfl⟩⟩
  | true =>
    have hcount := h.count
    have hsmall := h.holds.small
    rw [length_append] at hcount
    have hholds : Holds { pool with clones := pool.clones + 1 } stack :=
      ⟨hsmall, h.holds.firstfree, h.holds.slots⟩
    obtain ⟨slots, hstore, hpush⟩ :=
      hholds.push (by show stack.length < pool.size; omega) ⟨pool.clones, pool.version⟩
    refine ⟨true, { pool with
        serverPool := slots, firstfree := nextInt pool.firstfree,
        currentSize := (pool.currentSize + 1) % 2 ^ 32, clones := pool.clones + 1 }, ?_, rfl, rfl,
      .inr ⟨rfl, rfl, ?_⟩⟩
    · exact congrArg (Option.bind · _) hstore
    have hmod : (pool.currentSize + 1) % 2 ^ 32 = pool.currentSize + 1 := Nat.mod_eq_of_lt (by omega)
    refine h.replace [] (stack ++ held) ⟨pool.clones, pool.version⟩ .rfl ?_ rfl
      ⟨hsmall, hpush.firstfree, hpush.slots⟩ hmod ?_ rfl
    · show (stack ++ [_] ++ held).Perm _
      rw [append_assoc]
      exact perm_middle
    · show (pool.currentSize + 1) % 2 ^ 32 ≤ pool.size
      omega

end

/-- What `fetch` leaves: the client it returns was on top of the pool or was made, and has moved to
its thread. -/
def AfterFetch (pool : Pool) (stack held : List Clone) : Fetched → Pool → Prop
  | .client c, pool' => ∃ stack', pool'.Owns stack' (c :: held) ∧
    (stack = stack' ++ [c] ∧ pool'.clones = pool.clones ∨
      stack = stack' ∧ c = pool.clone.1 ∧ pool'.clones = pool.clones + 1)
  | _, pool' => pool'.Owns stack held ∧ pool'.clones = pool.clones

theorem fetchLoop_pop {c : Clone} (h : pool.Owns (stack ++ [c]) held) (waits cloned : Bool)
    (fuel : Nat) : ∃ pool', fetchLoop waits cloned (fuel + 1) pool = some (.client c, pool') ∧
      pool'.version = pool.version ∧ pool'.clones = pool.clones ∧ pool'.Owns stack (c :: held) := by
  obtain ⟨hload, hpop⟩ := h.holds.pop
  have htop : -1 < pool.firstfree := by
    rw [h.holds.firstfree, length_append, length_singleton]
    omega
  refine ⟨{ pool with firstfree := pool.firstfree - 1 },
    by simp only [fetchLoop, if_pos htop, hload, Option.bind_eq_bind]; rfl, rfl, rfl, ?_⟩
  refine h.perm ?_ hpop rfl rfl rfl
  rw [append_assoc]
  exact .rfl

section

variable (h : pool.Owns stack held)
include h

theorem fetch_owns (waits cloned : Bool) :
    ∃ ret pool', pool.fetch waits cloned = some (ret, pool') ∧ pool'.version = pool.version ∧
      AfterFetch pool stack held ret pool' := by
  rcases eq_nil_or_concat stack with rfl | ⟨stack, c, rfl⟩
  · have hempty : ¬-1 < pool.firstfree := by
      rw [h.holds.firstfree]
      simp
    by_cases hfull : pool.currentSize = pool.size
    · refine ⟨if waits then .waiting else .notFound, pool, ?_, rfl, ?_⟩
      · simp only [fetch, fetchLoop, if_neg hempty, if_pos hfull]
        rfl
      · cases waits <;> exact ⟨h, rfl⟩
    · obtain ⟨grown, pool', hgrow, -, hversion, ⟨rfl, rfl, -⟩ | ⟨rfl, hclones, hc⟩⟩ :=
        growPool_owns h (Nat.lt_of_le_of_ne h.bounded hfull) cloned
      · exact ⟨.failed, pool', by
          simp only [fetch, fetchLoop, if_neg hempty, if_neg hfull, hgrow]
          rfl, rfl, h, rfl⟩
      · obtain ⟨pool'', hpop, hversion', hclones', hown⟩ := fetchLoop_pop hc waits cloned 0
        refine ⟨.client pool.clone.1, pool'', ?_, hversion'.trans hversion, [], hown,
          .inr ⟨rfl, rfl, hclones'.trans hclones⟩⟩
        rw [fetch, fetchLoop, if_neg hempty, if_neg hfull, hgrow]
        exact hpop
  · rw [concat_eq_append] at h ⊢
    obtain ⟨pool', hpop, hversion, hclones, hown⟩ := fetchLoop_pop h waits cloned 1
    exact ⟨.client c, pool', hpop, hversion, stack, hown, .inl ⟨rfl, hclones⟩⟩

theorem release_owns {released : Clone} (hheld : held.Perm (released :: held')) (cloned : Bool) :
    ∃ pool' client, pool.release released cloned = some pool' ∧ pool'.version = pool.version ∧
      pool'.Owns (stack ++ [client]) held' ∧
      (client = released ∧ (pool.compareVersion released = true ∨ cloned = false) ∧
          pool'.clones = pool.clones ∨ client = pool.clone.1 ∧ pool'.clones = pool.clones + 1) := by
  have hroom : stack.length < pool.size := by
    have hcount := h.count
    have hbound := h.bounded
    rw [length_append, hheld.length_eq, length_cons] at hcount
    omega
  have hperm : (stack ++ held).Perm ([released] ++ (stack ++ held')) :=
    (hheld.append_left stack).trans perm_middle
  by_cases hstale : (!pool.compareVersion released && cloned) = true
  · have hholds : Holds { pool with clones := pool.clones + 1 } stack :=
      ⟨h.holds.small, h.holds.firstfree, h.holds.slots⟩
    obtain ⟨slots, hstore, hpush⟩ := hholds.push hroom ⟨pool.clones, pool.version⟩
    refine ⟨{ pool with
        serverPool := slots, firstfree := nextInt pool.firstfree, clones := pool.clones + 1 },
      pool.clone.1, by
      simp only [release, clone, if_pos hstale, Option.bind_eq_bind, hstore]; rfl, rfl, ?_,
      .inr ⟨rfl, rfl⟩⟩
    refine h.replace [released] (stack ++ held') ⟨pool.clones, pool.version⟩ hperm ?_ rfl hpush rfl
      h.bounded rfl
    rw [append_assoc]
    exact perm_middle
  · obtain ⟨slots, hstore, hpush⟩ := h.holds.push hroom released
    have hkept : pool.compareVersion released = true ∨ cloned = false := by
      cases cloned <;> simp_all
    refine ⟨{ pool with serverPool := slots, firstfree := nextInt pool.firstfree }, released, by
      simp only [release, if_neg hstale, Option.bind_eq_bind, hstore]; rfl, rfl, ?_,
      .inl ⟨rfl, hkept, rfl⟩⟩
    refine h.perm ?_ hpush rfl rfl rfl
    rw [append_assoc]
    exact (perm_middle).trans hperm.symm

/-- The settings of the client in a slot change, but not which client it is. -/
theorem Owns.update (hids : stack'.map (·.id) = stack.map (·.id)) (hholds : pool'.Holds stack')
    (hsize : pool'.size = pool.size) (hcur : pool'.currentSize = pool.currentSize)
    (hclones : pool'.clones = pool.clones) : pool'.Owns stack' held where
  holds := hholds
  distinct := by
    rw [map_append, hids, ← map_append]
    exact h.distinct
  count := by
    have hlen := congrArg List.length hids
    have hcount := h.count
    simp only [length_map, length_append] at *
    omega
  bounded := by
    rw [hcur, hsize]
    exact h.bounded
  made c hc := by
    rw [hclones]
    have hmem : c.id ∈ (stack ++ held).map (·.id) := by
      rw [map_append, ← hids, ← map_append]
      exact mem_map_of_mem hc
    obtain ⟨c', hc', hid⟩ := mem_map.mp hmem
    exact hid ▸ h.made c' hc'

end

theorem map_id_set (hx : x < stack.length) (version : Int32) :
    (stack.set x { stack[x] with version := version }).map (·.id) = stack.map (·.id) := by
  rw [map_set]
  refine ext_getElem (by simp) fun i _ _ => ?_
  rw [getElem_set]
  split
  · rename_i h
    simp [← h]
  · rfl

theorem behaviorSlot_owns (rc : ReturnT) (cloned : Bool) (h : pool.Owns stack held) (hx : x < stack.length) :
    ∃ pool' stack', (if rc.isSuccess then pool.store x { stack[x] with version := pool.version }
        else if cloned then pool.clone.2.store x pool.clone.1 else some pool) = some pool' ∧
      pool'.Owns stack' held ∧ stack'.length = stack.length := by
  by_cases hrc : rc.isSuccess = true
  · obtain ⟨slots, hstore, hset⟩ := h.holds.set hx ⟨stack[x].id, pool.version⟩
    exact ⟨_, _, (if_pos hrc).trans hstore, h.update (map_id_set hx _) hset rfl rfl rfl, length_set⟩
  · rw [if_neg hrc]
    cases cloned with
    | false => exact ⟨pool, stack, rfl, h, rfl⟩
    | true =>
      have hholds : pool.clone.2.Holds stack := ⟨h.holds.small, h.holds.firstfree, h.holds.slots⟩
      obtain ⟨slots, hstore, hset⟩ := hholds.set hx pool.clone.1
      refine ⟨_, stack.set x pool.clone.1, (if_pos rfl).trans hstore, ?_, length_set⟩
      refine h.replace [stack[x]] (stack.eraseIdx x ++ held) pool.clone.1 ?_ ?_ rfl hset rfl
        h.bounded rfl
      · exact (getElem_cons_eraseIdx_perm hx).symm.append_right held
      · exact (set_perm_cons_eraseIdx hx _).append_right held

theorem behaviorLoop_owns (rcs : Nat → ReturnT) (cloned : Nat → Bool) (fuel : Nat)
    (h : pool.Owns stack held) (hx : x ≤ stack.length) (hf : stack.length < x + fuel) :
    ∃ pool' stack', behaviorLoop rcs cloned fuel x pool = some pool' ∧ pool'.Owns stack' held := by
  induction fuel generalizing x pool stack with
  | zero => omega
  | succ fuel ih =>
    have hfirst := h.holds.firstfree
    have hlen := h.holds.length_le
    have hsmall := h.holds.small
    by_cases hend : x = stack.length
    · exact ⟨pool, stack, by rw [behaviorLoop, if_neg (by omega)], h⟩
    · have hlt : x < stack.length := by omega
      obtain ⟨pool', stack', hslot, hpool', hlen'⟩ := behaviorSlot_owns (rcs x) (cloned x) h hlt
      obtain ⟨pool'', stack'', hloop, hpool''⟩ :=
        ih (x := x + 1) hpool' (by omega) (by omega)
      refine ⟨pool'', stack'', ?_, hpool''⟩
      rw [behaviorLoop, if_pos (by omega), h.holds.getElem hlt, Int.toNat_natCast]
      have hnext : nextInt x = (x + 1 : Nat) := by
        rw [nextInt_eq (by omega) (by omega)]
        rfl
      rw [hnext]
      exact (congrArg (Option.bind · _) hslot).trans hloop

theorem behaviorSet_owns (h : pool.Owns stack held) (rc : ReturnT) (rcs : Nat → ReturnT)
    (cloned : Nat → Bool) :
    ∃ pool' stack', pool.behaviorSet rc rcs cloned = some (rc, pool') ∧ pool'.Owns stack' held := by
  by_cases hrc : rc.isFailed = true
  · exact ⟨pool, stack, by rw [behaviorSet, if_pos hrc]; rfl, h⟩
  · have hnew : Owns { pool with version := pool.version + 1 } stack held :=
      h.perm .rfl ⟨h.holds.small, h.holds.firstfree, h.holds.slots⟩ rfl rfl rfl
    have hfirst := h.holds.firstfree
    obtain ⟨pool', stack', hloop, hpool'⟩ :=
      behaviorLoop_owns rcs cloned (pool.firstfree.toNat + 3) hnew (Nat.zero_le _) (by omega)
    exact ⟨pool', stack', by rw [behaviorSet, if_neg hrc]; exact congrArg (Option.bind · _) hloop,
      hpool'⟩

theorem initLoop_owns (cloned : Nat → Bool) (h : pool.Owns stack [])
    (hversion : ∀ c ∈ stack, c.version = pool.version) (hroom : stack.length + n ≤ pool.size) :
    ∃ pool' stack', initLoop cloned n x pool = some pool' ∧ pool'.version = pool.version ∧
      (∀ c ∈ stack', c.version = pool.version) ∧ pool'.Owns stack' [] := by
  induction n generalizing x pool stack with
  | zero => exact ⟨pool, stack, rfl, rfl, hversion, h⟩
  | succ n ih =>
    have hcount := h.count
    rw [append_nil] at hcount
    obtain ⟨grown, pool', hgrow, hsize, hversion', ⟨rfl, rfl, -⟩ | ⟨rfl, -, hc⟩⟩ :=
      growPool_owns h (by omega) (cloned x)
    · exact ⟨pool', stack, by rw [initLoop, hgrow]; rfl, rfl, hversion, h⟩
    · obtain ⟨pool'', stack'', hloop, hversion'', hstack, hpool''⟩ := ih (x := x + 1) hc
        (by simpa [or_imp, forall_and, hversion', clone] using hversion)
        (by rw [hsize, length_append, length_singleton]; omega)
      exact ⟨pool'', stack'', by rw [initLoop, hgrow]; exact hloop, hversion''.trans hversion',
        fun c hc' => (hstack c hc').trans hversion', hpool''⟩

end Pool

namespace PoolSystem

/-- The clients in the pool and the clients held by threads are all different, they number
`current_size`, which is at most `size`, and every slot up to `firstfree` is in the array and holds
one of them. -/
structure Conserved (sys : PoolSystem) : Prop where
  distinct : ((sys.pool.free ++ sys.held.map (·.2)).map (·.id)).Nodup
  count : (sys.pool.free ++ sys.held.map (·.2)).length = sys.pool.currentSize
  bounded : sys.pool.currentSize ≤ sys.pool.size
  firstfree : -1 ≤ sys.pool.firstfree ∧ sys.pool.firstfree ≤ sys.pool.size - 1
  slots : sys.pool.free.length = sys.pool.firstfree + 1

/-- The invariant of the threads: somehow the clients are shared out. -/
def Shares (sys : PoolSystem) : Prop := ∃ stack, sys.pool.Owns stack (sys.held.map (·.2))

theorem Shares.conserved (h : sys.Shares) : sys.Conserved := by
  obtain ⟨stack, h⟩ := h
  have hfree := h.holds.free_eq
  have hfirst := h.holds.firstfree
  have hlen := h.holds.length_le
  refine ⟨?_, ?_, h.bounded, by omega, by rw [hfree]; omega⟩
  · rw [hfree]
    exact h.distinct
  · rw [hfree]
    exact h.count

theorem Shares.fetched (sys : PoolSystem) (thread : Nat) {ret : Fetched} {pool : Pool}
    {stack : List Clone} (h : Pool.AfterFetch sys.pool stack (sys.held.map (·.2)) ret pool) :
    (sys.fetched thread ret pool).Shares := by
  cases ret with
  | client c =>
    obtain ⟨stack', hown, -⟩ := h
    exact ⟨stack', hown⟩
  | notFound | waiting | failed => exact ⟨stack, h.1⟩

/-- Every critical section that a thread can enter ends, and keeps the invariant. -/
theorem Shares.step (h : sys.Shares) {event : PoolEvent} (he : sys.Enabled event) :
    ∃ sys', sys.step event = some sys' ∧ sys'.Shares := by
  obtain ⟨stack, hown⟩ := h
  cases event with
  | fetch thread waits cloned =>
    obtain ⟨ret, pool', hfetch, -, hafter⟩ := Pool.fetch_owns hown waits cloned
    exact ⟨_, by rw [PoolSystem.step, hfetch]; rfl, .fetched sys thread hafter⟩
  | wake thread wakeup cloned =>
    cases wakeup with
    | woken =>
      obtain ⟨ret, pool', hfetch, -, hafter⟩ := Pool.fetch_owns hown true cloned
      refine ⟨_, by rw [PoolSystem.step, hfetch]; rfl, ?_⟩
      exact .fetched { sys with waiting := sys.waiting.erase thread } thread hafter
    | error => exact ⟨_, rfl, stack, hown⟩
  | release thread client cloned =>
    have hperm := (perm_cons_erase he.2).map (·.2)
    obtain ⟨pool', client, hrelease, -, hown', -⟩ := Pool.release_owns hown hperm cloned
    exact ⟨_, by rw [PoolSystem.step, hrelease]; rfl, stack ++ [client], hown'⟩
  | behaviorSet rc rcs cloned =>
    obtain ⟨pool', stack', hset, hown'⟩ := Pool.behaviorSet_owns hown rc rcs cloned
    exact ⟨_, by rw [PoolSystem.step, hset]; rfl, stack', hown'⟩

theorem Shares.reaches {start : PoolSystem} (h : start.Shares) (hr : Reaches start sys) : sys.Shares := by
  induction hr with
  | start => exact h
  | step _ henabled hnext ih =>
    obtain ⟨sys', hstep, hshares⟩ := ih.step henabled
    cases hnext.symm.trans hstep
    exact hshares

end PoolSystem

/-! ## Creation, and every run from it -/

/-- The pool before the first clone is made. -/
def emptyPool (version : Int32) (max : Nat) : Pool :=
  { serverPool := List.replicate max none, firstfree := -1, size := max, currentSize := 0,
    version := version, clones := 0 }

theorem memcachedPoolCreate_eq (version : Int32) {initial : Nat} (cloned : Nat → Bool) (hi : 0 < initial)
    (hm : initial ≤ max) : memcachedPoolCreate version initial max cloned =
      (Pool.initLoop cloned initial 0 (emptyPool version max)).map some := by
  rw [memcachedPoolCreate, if_neg (by omega)]
  cases h : Pool.initLoop cloned initial 0 (emptyPool version max) with
  | none => exact congrArg (Option.bind · _) h
  | some pool => exact congrArg (Option.bind · _) h

theorem emptyPool_owns (version : Int32) (hsmall : max < 2 ^ 31) : (emptyPool version max).Owns [] [] where
  holds := ⟨hsmall, rfl, List.replicate max none, rfl, by simp [emptyPool]⟩
  distinct := nodup_nil
  count := rfl
  bounded := Nat.zero_le _
  made _ hc := nomatch hc

/-- Whatever the threads do, and however cloning fails, the pool neither loses nor duplicates a
client, holds at most `max` of them, and never touches a slot outside `server_pool`. -/
theorem pool_conserves_clients (version : Int32) (initial max : Nat) (cloned : Nat → Bool)
    (hi : 0 < initial) (hm : initial ≤ max) (hsmall : max < 2 ^ 31) :
    ∃ pool, memcachedPoolCreate version initial max cloned = some (some pool) ∧
      ∀ sys, PoolSystem.Reaches { pool := pool } sys →
        sys.Conserved ∧ ∀ event, sys.Enabled event → (sys.step event).isSome := by
  obtain ⟨pool, stack, hinit, -, -, hown⟩ := Pool.initLoop_owns cloned (n := initial) (x := 0)
    (emptyPool_owns version hsmall) (by simp) (by simpa [emptyPool] using hm)
  refine ⟨pool, by rw [memcachedPoolCreate_eq version cloned hi hm, hinit]; rfl, fun sys hr => ?_⟩
  have hshares : sys.Shares := .reaches ⟨stack, hown⟩ hr
  refine ⟨hshares.conserved, fun event he => ?_⟩
  obtain ⟨sys', hstep, -⟩ := hshares.step he
  rw [hstep]
  rfl

theorem pool_conserves_clients_two :
    ∃ pool, memcachedPoolCreate 0 1 2 (fun _ => true) = some (some pool) ∧
      ∀ sys, PoolSystem.Reaches { pool := pool } sys →
        sys.Conserved ∧ ∀ event, sys.Enabled event → (sys.step event).isSome :=
  pool_conserves_clients 0 1 2 (fun _ => true) (by decide) (by decide) (by decide)

/-- As long as `firstfree` can be represented, each clone is put into the next slot. -/
theorem initLoop_fill (m : Nat) {k : Nat} {pool : Pool} (hfirst : pool.firstfree = (k : Int) - 1)
    (hroom : k + n ≤ pool.size) (hint : k + n ≤ 2 ^ 31) :
    ∃ pool' x', Pool.initLoop (fun _ => true) (n + m) x pool =
        Pool.initLoop (fun _ => true) m x' pool' ∧ pool'.firstfree = ((k + n : Nat) : Int) - 1 := by
  induction n generalizing x k pool with
  | zero => exact ⟨pool, x, by rw [Nat.zero_add], hfirst⟩
  | succ n ih =>
    have hnext : nextInt pool.firstfree = k := by
      rw [nextInt_eq] <;> rw [hfirst] <;> omega
    obtain ⟨pool', x', hloop, hfirst'⟩ := @ih (x + 1) (k + 1) { pool with
        serverPool := pool.serverPool.set k (some ⟨pool.clones, pool.version⟩),
        firstfree := nextInt pool.firstfree, currentSize := (pool.currentSize + 1) % 2 ^ 32,
        clones := pool.clones + 1 }
      (by show nextInt pool.firstfree = _; omega) (by show k + 1 + n ≤ pool.size; omega) (by omega)
    refine ⟨pool', x', ?_, by rw [hfirst']; omega⟩
    have hstore : pool.clone.2.store (nextInt pool.firstfree) pool.clone.1 = some { pool with
        serverPool := pool.serverPool.set k (some ⟨pool.clones, pool.version⟩),
        clones := pool.clones + 1 } := by
      rw [Pool.store, hnext, if_pos ⟨by omega, by show (k : Int) < pool.size; omega⟩]
      rfl
    rw [← hloop, Nat.succ_add, Pool.initLoop]
    exact congrArg (fun r => Option.bind (Option.bind r _) _) hstore

/-- With a maximum above `2 ^ 31` the index overflows while the clones are made, and the next one is
written in front of the array. -/
theorem pool_overflows : memcachedPoolCreate 0 (2 ^ 31 + 1) (2 ^ 31 + 1) (fun _ => true) = none := by
  rw [memcachedPoolCreate_eq _ _ (Nat.succ_pos _) (Nat.le_refl _)]
  obtain ⟨pool, x, hloop, hfirst⟩ := initLoop_fill 1 (n := 2 ^ 31) (x := 0) (k := 0)
    (show (emptyPool 0 (2 ^ 31 + 1)).firstfree = _ from rfl)
    (show 0 + 2 ^ 31 ≤ 2 ^ 31 + 1 by omega) (by omega)
  have hnext : nextInt pool.firstfree = -2 ^ 31 := by
    rw [hfirst]
    decide
  rw [hloop, Pool.initLoop, Pool.growPool]
  simp only [Pool.clone, Pool.store, hnext, if_true]
  rw [if_neg (by omega)]
  rfl

end LM
