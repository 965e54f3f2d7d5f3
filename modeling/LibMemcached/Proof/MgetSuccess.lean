import LibMemcached.Proof.Asking
import LibMemcached.Proof.Multiget
import LibMemcached.Proof.Replicas

/-!
# When a multi-get reports success

The loops of `mget_by_key_real`, `simple_binary_mget` and `replication_binary_mget` are runs in the sense of
`MgetRun`: `sendKeys_run`, `binarySendKeys_run` and `replicationBinaryMget_run` give their steps, and
`foldServers_closes` those that close the requests. `mget_asks_all` puts them together: a call that returns
`MEMCACHED_SUCCESS` has asked for every key just if nothing went wrong on the way, because a server that cannot be
reached does not spoil the code that is returned.
-/

namespace LM

open List Memcached

variable {κ α : Type} {K : Kernel κ} {H : Hashkit.Hashes} {env : Nat → Env} {master : Option Nat}
  {count start replicas : Nat} {f : α → Act κ α} {ks : List Bytes} {c' : Client κ} {randomizeRead : Bool}
  {k : Nat} {m : Act κ α} {ok : α → Prop} {sends : List (MgetStep κ)} {replica : Nat}
variable {mode : MgetMode} {keys : List Bytes} {c d : Client κ} {view : Memcached} {x : Nat}

/-! ## Clients with all their connections -/

/-- A client with a connection for each server, between calls. -/
structure Client.Whole (view : Memcached) (c : Client κ) : Prop where
  view : c.memc.getView = view
  serverCount : c.memc.serverCount = c.conns.length
  atRest : c.AtRest

theorem SameClient.getView {a b : Memcached} (h : SameClient a b) : b.getView = a.getView := by
  rw [h]
  rfl

theorem SameClient.serverCount {a b : Memcached} (h : SameClient a b) : b.serverCount = a.serverCount := by
  rw [h]
  rfl

theorem SameSettings.keyTests (keys : List Bytes) (memc : Memcached) : SameSettings memc (keyTests keys memc).2 := by
  by_cases h : ∀ key ∈ keys, memc.Passes key
  · rw [keyTests_pass h]
    exact .rfl
  · exact (keyTests_fail h).2

theorem Client.Whole.keyTests (hc : c.Whole view) (keys : List Bytes) :
    Client.Whole view { c with memc := (keyTests keys c.memc).2 } :=
  have hsame := (SameSettings.keyTests keys c.memc).sameClient
  ⟨hsame.getView.trans hc.view, hsame.serverCount.trans hc.serverCount, hc.atRest.isPurging, hc.atRest.writeBuffer⟩

theorem onServer_whole (hm : ∀ s, Calls m s) (hc : c.Whole view) :
    Always (onServer k m) c fun _ d => d.Whole view := by
  have hlength : Always (onServer k m) c fun _ d => d.conns.length = c.conns.length :=
    onServer_always fun _ _ _ _ _ => length_set
  refine ((onServer_stays hm hc.atRest).and hlength).mono fun _ d ⟨hd, hlength⟩ => ?_
  have hsame := hd.memc.sameClient
  exact ⟨hsame.getView.trans hc.view, hsame.serverCount.trans (hc.serverCount.trans hlength.symm), hd.atRest⟩

theorem foldServers_whole (hf : ∀ a s, Calls (f a) s) {ks : List Nat} (a : α) (hc : c.Whole view) :
    Always (foldServers f ks a) c fun _ d => d.Whole view := by
  induction ks generalizing a c with
  | nil => exact .pure hc
  | cons k ks ih => exact (onServer_whole (hf a) hc).bind fun a d hd => ih a hd

theorem serverKey_whole {now : Env} (key : Bytes) (hc : c.Whole view) :
    Always (serverKey H now key) c fun _ d => d.Whole view ∧ Aside c d := by
  refine .onClient_bind ?_
  split
  · exact .failure
  · have hview := getView_regenForAutoEject H c.memc now.now
    have hcount := serverCount_regenForAutoEject H c.memc now.now
    refine Always.bind (Q := fun _ d => d.Whole view ∧ Aside c d) (.modify ?_) fun _ _ hd => .pure hd
    have hrest : c.AtRest := hc.atRest
    exact ⟨⟨hview.trans hc.view, hcount.trans hc.serverCount, hrest.isPurging, hrest.writeBuffer⟩, Eq.refl _⟩

theorem keyServer_whole (x : Nat) (key : Bytes) (hc : c.Whole view) :
    Always (keyServer H env master x key) c fun _ d => d.Whole view ∧ Aside c d := by
  cases master with
  | some k => exact .pure ⟨hc, rfl⟩
  | none => exact serverKey_whole key hc

theorem keyServers_whole (x : Nat) (ks : List Bytes) (hc : c.Whole view) :
    Always (keyServers H env master x ks) c fun _ d => d.Whole view ∧ Aside c d := by
  induction ks generalizing x c with
  | nil => exact .pure ⟨hc, rfl⟩
  | cons key ks ih =>
    refine (keyServer_whole x key hc).bind fun k d ⟨hd, hcd⟩ => (ih (x + 1) hd).bind fun _ e ⟨he, hde⟩ => ?_
    exact .pure ⟨he, hde.trans hcd⟩

/-! ## The keys are sent -/

/-- The steps ask for the keys with the numbers from `x` on, in their order, and close no request. -/
structure SendsKeys (x n : Nat) (steps : List (MgetStep κ)) : Prop where
  numbers : steps.filterMap (fun l => l.event.number) = List.range' x n
  open_ : ∀ l ∈ steps, ∀ k written, l.event ≠ .close k written

namespace SendsKeys

variable {n k : Nat} {l : MgetStep κ} {steps : List (MgetStep κ)} {written : Bool}

theorem nil : SendsKeys x 0 ([] : List (MgetStep κ)) := ⟨rfl, fun _ hl => absurd hl not_mem_nil⟩

theorem key (hev : l.event = .key x k written) (h : SendsKeys (x + 1) n steps) : SendsKeys x (n + 1) (l :: steps) where
  numbers := by
    rw [filterMap_cons, hev]
    exact congrArg (x :: ·) h.numbers
  open_ := forall_mem_cons.mpr ⟨fun _ _ => by rw [hev]; exact MgetEvent.noConfusion, h.open_⟩

theorem flush (hev : l.event = .flush) (h : SendsKeys x n steps) : SendsKeys x n (l :: steps) where
  numbers := by
    rw [filterMap_cons, hev]
    exact h.numbers
  open_ := forall_mem_cons.mpr ⟨fun _ _ => by rw [hev]; exact MgetEvent.noConfusion, h.open_⟩

end SendsKeys

theorem getElem?_of_drop {a : α} {as l : List α} (h : l.drop x = a :: as) : l[x]? = some a ∧ l.drop (x + 1) = as := by
  constructor
  · have hfirst := congrArg (fun l' : List α => l'[0]?) h
    simpa using hfirst
  · rw [← tail_drop, h, tail_cons]

theorem onServer_step {key : Bytes} {w : α → Bool → Prop}
    (hm : ∀ s, Always m s fun a t => ∃ written, w a written ∧ mode.Asks K key s written t)
    (hkey : keys[x]? = some key) : Always (onServer k m) c fun a d =>
      ∃ written, w a written ∧ MgetStep.Of K mode keys ⟨.key x k written, c, d⟩ c d :=
  onServer_always fun conn hconn => (hm _).mono fun _ t ⟨written, hw, hask⟩ =>
    ⟨written, hw, rfl, rfl, key, conn, t, hkey, hconn, hask, rfl⟩

theorem addKey_ways (getCommand key : Bytes) (m : Mget) (s : St κ) :
    Always (addKey K getCommand key m) s fun _ t => ∃ written, True ∧ (MgetMode.text getCommand).Asks K key s written t := by
  refine Always.bind (Q := fun r t => startGet K getCommand m s = some (r, t)) (fun _ _ h => h) fun r t hstart => ?_
  obtain ⟨started, m'⟩ := r
  cases started with
  | false => exact .pure ⟨false, trivial, TextAsk.stopped hstart⟩
  | true =>
    refine .get_bind (Always.bind (Q := fun ok u => memcachedIoWritev K _ _ t = some (ok, u)) (fun _ _ h => h)
      fun ok u hwrite => ?_)
    cases ok with
    | true => exact .pure ⟨true, trivial, TextAsk.written hstart hwrite⟩
    | false =>
      refine Always.bind (Q := fun _ v => v = { u with cursorActive := 0 }) (.modify rfl) fun _ v hv => ?_
      subst hv
      exact .pure ⟨false, trivial, TextAsk.failed hstart hwrite⟩

theorem sendKeys_run (getCommand : Bytes) (m : Mget) (hks : keys.drop x = ks) (hc : c.Whole view) :
    Always (sendKeys K H env master getCommand x ks m) c fun _ c' => c'.Whole view ∧
      ∃ steps, MgetRun K (.text getCommand) keys c steps c' ∧ SendsKeys x ks.length steps := by
  induction ks generalizing x m c with
  | nil => exact .pure ⟨hc, [], .nil c, .nil⟩
  | cons key ks ih =>
    obtain ⟨hkey, hrest⟩ := getElem?_of_drop hks
    refine (keyServer_whole x key hc).bind fun k d ⟨hd, hcd⟩ => ?_
    refine ((onServer_whole (fun _ => addKey_calls _ _ _) hd).and
      (onServer_step (addKey_ways getCommand key m) hkey)).bind fun m e ⟨he, written, _, hstep⟩ => ?_
    refine (ih m hrest he).mono fun _ c' ⟨hc', steps, hrun, hsends⟩ => ?_
    exact ⟨hc', _, .silent hcd (.step hstep hrun), hsends.key rfl⟩

theorem memcachedFlushBuffers_whole (hc : c.Whole view) :
    Always (memcachedFlushBuffers K) c fun _ d => d.Whole view :=
  .get_bind ((foldServers_whole (fun a _ => flushBuffer_calls a) _ hc).bind fun _ _ hd => .pure hd)

theorem binarySendKeys_run (flush : Bool) (rc : ReturnT) (hks : keys.drop x = ks) (hc : c.Whole view) :
    Always (binarySendKeys K H env master true flush x ks rc) c fun _ c' => c'.Whole view ∧
      ∃ steps, MgetRun K (.binary flush) keys c steps c' ∧ SendsKeys x ks.length steps := by
  induction ks generalizing x rc c with
  | nil => exact .pure ⟨hc, [], .nil c, .nil⟩
  | cons key ks ih =>
    obtain ⟨hkey, hrest⟩ := getElem?_of_drop hks
    refine (keyServer_whole x key hc).bind fun k d ⟨hd, hcd⟩ => ?_
    have hask (s : St κ) : Always (binaryAddKey K true flush key rc) s fun r t =>
        ∃ written, True ∧ (MgetMode.binary flush).Asks K key s written t :=
      fun r t hrun => ⟨r.2, trivial, rc, r.1, hrun⟩
    refine ((onServer_whole (fun _ => binaryAddKey_calls _ _ _ _) hd).and (onServer_step hask hkey)).bind
      fun r e ⟨he, written, _, hstep⟩ => .get_bind ?_
    -- the buffers are flushed once, after the key whose number is the limit
    have hflush : Always (if r.2 = true ∧ 0 < x ∧ x = e.memc.ioKeyPrefetch.toNat then memcachedFlushBuffers K
        else pure .success) e fun _ f => f.Whole view ∧
          ∃ steps, MgetRun K (.binary flush) keys e steps f ∧ ∀ l ∈ steps, l.event = .flush := by
      refine .ite (fun _ rc' f hrun => ⟨memcachedFlushBuffers_whole he _ _ hrun, ?_⟩) fun _ => .pure ⟨he, [], .nil e, by simp⟩
      exact ⟨[⟨.flush, e, f⟩], .step ⟨rfl, rfl, rc', hrun⟩ (.nil f), by simp⟩
    refine hflush.bind fun flushed f ⟨hf, between, hbetween, hflushes⟩ => ?_
    refine (ih _ hrest hf).mono fun _ c' ⟨hc', steps, hrun, hsends⟩ => ?_
    refine ⟨hc', _, .silent hcd (.step hstep (hbetween.append hrun)), .key rfl ?_⟩
    clear hbetween
    induction between with
    | nil => exact hsends
    | cons l between ih' =>
      obtain ⟨hl, hbetween⟩ := forall_mem_cons.mp hflushes
      exact .flush hl (ih' hbetween)

/-! ## The requests are closed -/

/-- A loop over the servers that closes the requests of each server that awaits an answer, if all goes well. -/
theorem foldServers_closes (keys : List Bytes)
    (hf : ∀ a s, Always (f a) s fun a' t => ok a' → ok a ∧ (s.cursorActive = 0 → t = s) ∧ (s.cursorActive ≠ 0 → mode.Closes K s true t))
    {ks : List Nat} (a : α) (c : Client κ) : Always (foldServers f ks a) c fun a' c' => ok a' →
      ok a ∧ ∃ closes, MgetRun K mode keys c closes c' ∧ (∀ l ∈ closes, ∃ k, l.event = .close k true) ∧
        ∀ k ∈ ks, c.AwaitsAt k → ∃ l ∈ closes, l.event = .close k true := by
  induction ks generalizing a c with
  | nil => exact .pure fun h => ⟨h, [], .nil c, by simp, by simp⟩
  | cons j ks ih =>
    have hfirst : Always (onServer j (f a)) c fun a' d => ok a' → ok a ∧ ∃ conn t, c.conns[j]? = some conn ∧
        d = c.put j t ∧ (conn.cursorActive = 0 → t = ⟨conn, c.toShared⟩) ∧
          (conn.cursorActive ≠ 0 → mode.Closes K ⟨conn, c.toShared⟩ true t) :=
      onServer_always fun conn hconn => (hf a _).mono fun _ t ht hok => ⟨(ht hok).1, conn, t, hconn, rfl, (ht hok).2⟩
    refine hfirst.bind fun a' d hd => (ih a' d).mono fun _ c' hc' hok => ?_
    obtain ⟨hok', closes, hrun, hcloses, hall⟩ := hc' hok
    obtain ⟨hoka, conn, t, hconn, rfl, hidle, hbusy⟩ := hd hok'
    have hlater {k : Nat} (hjk : j ≠ k) (hk : c.AwaitsAt k) : (c.put j t).AwaitsAt k := by
      obtain ⟨conn', hconn', hne⟩ := hk
      exact ⟨conn', (Client.put_other hjk t).trans hconn', hne⟩
    by_cases hcursor : conn.cursorActive = 0
    · refine ⟨hoka, closes, .silent ?_ hrun, hcloses, fun k hmem hk => ?_⟩
      · show c.conns.set j t.toConn = c.conns
        obtain ⟨hlt, rfl⟩ := List.getElem?_eq_some_iff.mp hconn
        rw [hidle hcursor]
        exact set_getElem_self hlt
      · have hjk : j ≠ k := by
          rintro rfl
          obtain ⟨conn', hconn', hne⟩ := hk
          rw [hconn] at hconn'
          exact hne (Option.some.inj hconn' ▸ hcursor)
        exact hall k ((mem_cons.mp hmem).resolve_left hjk.symm) (hlater hjk hk)
    · refine ⟨hoka, ⟨.close j true, c, c.put j t⟩ :: closes, .step ⟨rfl, rfl, conn, t, hconn, hbusy hcursor, rfl⟩ hrun,
        forall_mem_cons.mpr ⟨⟨j, rfl⟩, hcloses⟩, fun k hmem hk => ?_⟩
      by_cases hjk : j = k
      · exact ⟨_, mem_cons_self, hjk ▸ rfl⟩
      · obtain ⟨l, hl, hev⟩ := hall k ((mem_cons.mp hmem).resolve_left (Ne.symm hjk)) (hlater hjk hk)
        exact ⟨l, mem_cons_of_mem _ hl, hev⟩

theorem endGet_closes {getCommand : Bytes} (done : Bool × Bool) (s : St κ) :
    Always (endGet K done) s fun done' t =>
    done'.2 = false → done.2 = false ∧ (s.cursorActive = 0 → t = s) ∧
      (s.cursorActive ≠ 0 → (MgetMode.text getCommand).Closes K s true t) := by
  refine .get_bind (.ite (fun h => .pure fun hdone => ⟨hdone, fun _ => rfl, fun hne => absurd h hne⟩) fun h => ?_)
  refine .set_bind (Always.bind (Q := fun ok t => memcachedIoWrite K _ true _ = some (ok, t)) (fun _ _ h => h)
    fun ok t hwrite => ?_)
  cases ok with
  | true => exact .pure fun hdone => ⟨hdone, fun h0 => absurd h0 h, fun _ => ⟨h, hwrite⟩⟩
  | false => exact .pure fun hdone => Bool.noConfusion hdone

theorem sendNoop_code (rc : ReturnT) (s : St κ) :
    Always (sendNoop K rc) s fun rc' _ => rc' = .success → rc = .success := by
  refine .get_bind (.ite (fun _ => .pure id) fun _ => .skip fun _ _ => .skip fun sent _ => ?_)
  exact .ite (fun _ => .pure id) fun _ => .skip fun _ _ => .pure fun h => absurd h (by decide)

theorem sendNoop_closes {flush : Bool} (rc : ReturnT) (s : St κ) : Always (sendNoop K rc) s fun rc' t =>
    rc' = .success → rc = .success ∧ (s.cursorActive = 0 → t = s) ∧
      (s.cursorActive ≠ 0 → (MgetMode.binary flush).Closes K s true t) := by
  intro rc' t hrun hrc'
  obtain rfl := sendNoop_code rc s rc' t hrun hrc'
  subst hrc'
  have hidle (h : s.cursorActive = 0) : Always (sendNoop K .success) s fun _ t => t = s :=
    .get_bind (.ite (fun _ => .pure rfl) fun h' => absurd h h')
  exact ⟨rfl, fun h => hidle h _ _ hrun, fun h => ⟨h, hrun⟩⟩

theorem askedAll_closed_iff {number : Nat} {closes : List (MgetStep κ)} (hmode : mode.closes)
    (hidle : c.AllIdle) (hsends : MgetRun K mode keys c sends d) (hnumbers : SendsKeys 0 number sends)
    (hcloses : MgetRun K mode keys d closes c') (hclose : ∀ l ∈ closes, ∃ k, l.event = .close k true)
    (hall : ∀ k, d.AwaitsAt k → ∃ l ∈ closes, l.event = .close k true) :
    (sends ++ closes).filterMap (fun l => l.event.number) = List.range number ∧
      (AskedAll mode number (sends ++ closes) ↔ Unfailing mode number (sends ++ closes)) := by
  have hnokey : ∀ l ∈ closes, l.event.number = none := by
    intro l hl
    obtain ⟨k, hev⟩ := hclose l hl
    rw [hev]
    rfl
  have hall_numbers : (sends ++ closes).filterMap (fun l => l.event.number) = List.range number := by
    rw [filterMap_append, filterMap_eq_nil_iff.mpr hnokey, append_nil, hnumbers.numbers,
      range_eq_range']
  have hnum : Numbered number (sends ++ closes) := by
    constructor
    · rw [hall_numbers]
      exact nodup_range
    · intro x
      rw [hall_numbers, mem_range]
  have hwritten : ∀ l ∈ sends ++ closes, ∀ k, l.event ≠ .close k false := by
    intro l hl k hev
    rcases mem_append.mp hl with hl | hl
    · exact hnumbers.open_ l hl k false hev
    · obtain ⟨j, hj⟩ := hclose l hl
      rw [hj] at hev
      cases hev
  refine ⟨hall_numbers, fun h => h.unfailing hmode (hsends.append hcloses) hidle hnum, fun h => ?_⟩
  refine h.askedAll hmode hsends hcloses hidle hnum hwritten hnokey fun k ⟨conn, hconn, _, hne⟩ => ?_
  exact hall k ⟨conn, hconn, hne⟩

/-! ## Replicas are asked -/

/-- How the steps change where the keys are still to be asked for: a key that a server took is marked by `count`,
and no server takes a key that is marked. -/
structure TakesKeys (count number : Nat) (hash : List Nat) (steps : List (MgetStep κ)) (hash' : List Nat) : Prop where
  only : OnlyKeys number steps
  once : WrittenOnce steps
  free : ∀ x ∈ steps.filterMap (fun l => l.event.taken), hash.getD x count ≠ count
  kept : ∀ x, hash.getD x count = count → hash'.getD x count = count
  marked : ∀ x ∈ steps.filterMap (fun l => l.event.taken), hash'.getD x count = count

namespace TakesKeys

variable {count number : Nat} {hash hash' hash'' : List Nat} {steps steps' : List (MgetStep κ)}

theorem nil : TakesKeys count number hash ([] : List (MgetStep κ)) hash :=
  ⟨fun _ hl => absurd hl not_mem_nil, nodup_nil, by simp, fun _ h => h, by simp⟩

theorem append (h : TakesKeys count number hash steps hash') (h' : TakesKeys count number hash' steps' hash'') :
    TakesKeys count number hash (steps ++ steps') hash'' where
  only l hl := (mem_append.mp hl).elim (h.only l) (h'.only l)
  once := by
    unfold WrittenOnce
    rw [filterMap_append, nodup_append']
    exact ⟨h.once, h'.once, fun x hx hx' => h'.free x hx' (h.marked x hx)⟩
  free x hx := by
    rw [filterMap_append, mem_append] at hx
    exact hx.elim (h.free x) fun hx' hfree => h'.free x hx' (h.kept x hfree)
  kept x hx := h'.kept x (h.kept x hx)
  marked x hx := by
    rw [filterMap_append, mem_append] at hx
    exact hx.elim (fun hx => h'.kept x (h.marked x hx)) (h'.marked x)

end TakesKeys

theorem getD_set_marked (hash : List Nat) (y : Nat) :
    (hash.set x count).getD y count = if x = y then count else hash.getD y count := by
  rw [getD_eq_getElem?_getD, getD_eq_getElem?_getD, getElem?_set]
  repeat' split
  all_goals rfl

theorem replicaKey_run {key : Bytes} (hkey : keys[x]? = some key) (r : Replication) (c : Client κ) :
    Always (replicaKey K count replicas replica start randomizeRead x key r) c fun r' c' =>
      ∃ steps, MgetRun K .replicated keys c steps c' ∧ TakesKeys count keys.length r.hash steps r'.hash := by
  refine .ite (fun _ => .pure ⟨[], .nil c, .nil⟩) fun hfree => ?_
  have hhome : r.hash.getD x count ≠ count := fun h => hfree (.inl h)
  have hlt : x < keys.length := (List.getElem?_eq_some_iff.mp hkey).1
  have hask (s : St κ) : Always (askReplica K key) s fun a t =>
      ∃ written, a = written ∧ MgetMode.replicated.Asks K key s written t := fun a t hrun => ⟨a, rfl, hrun⟩
  refine (onServer_step hask hkey).bind fun a d ⟨written, ha, hstep⟩ => ?_
  subst ha
  have hrun : MgetRun K .replicated keys c [_] d := .step hstep (.nil d)
  cases a with
  | true =>
    refine .pure ⟨_, hrun, by simp [OnlyKeys, hlt], nodup_singleton x, ?_, fun y hy => ?_, ?_⟩
    · simpa [MgetEvent.taken] using hhome
    · rw [getD_set_marked, hy, ite_self]
    · rintro y hy
      obtain rfl : y = x := by simpa [MgetEvent.taken] using hy
      rw [getD_set_marked, if_pos rfl]
  | false =>
    exact .pure ⟨_, hrun, by simp [OnlyKeys, hlt], nodup_nil, by simp [MgetEvent.taken], fun _ hy => hy,
      by simp [MgetEvent.taken]⟩

theorem replicaKeys_run (hks : keys.drop x = ks) (r : Replication) (c : Client κ) :
    Always (replicaKeys K count replicas replica start randomizeRead x ks r) c fun r' c' =>
      ∃ steps, MgetRun K .replicated keys c steps c' ∧ TakesKeys count keys.length r.hash steps r'.hash := by
  induction ks generalizing x r c with
  | nil => exact .pure ⟨[], .nil c, .nil⟩
  | cons key ks ih =>
    obtain ⟨hkey, hrest⟩ := getElem?_of_drop hks
    refine (replicaKey_run hkey r c).bind fun r' d ⟨steps, hrun, htakes⟩ => ?_
    refine (ih hrest r' d).mono fun _ c' ⟨steps', hrun', htakes'⟩ => ?_
    exact ⟨_, hrun.append hrun', htakes.append htakes'⟩

theorem replicationBinaryMget_run (n : Nat) (r : Replication) (c : Client κ) :
    Always (replicationBinaryMget K count replicas start randomizeRead keys n r) c fun _ c' =>
      ∃ steps hash, MgetRun K .replicated keys c steps c' ∧ TakesKeys count keys.length r.hash steps hash := by
  induction n generalizing r c with
  | zero => exact .pure ⟨[], _, .nil c, .nil⟩
  | succ n ih =>
    refine (replicaKeys_run drop_zero { r with success := true } c).bind fun r' d ⟨steps, hrun, htakes⟩ => ?_
    refine .ite (fun _ => .pure ⟨steps, r'.hash, hrun, htakes⟩) fun _ => ?_
    refine (ih r' d).mono fun _ c' ⟨steps', hash', hrun', htakes'⟩ => ?_
    exact ⟨_, _, hrun.append hrun', htakes.append htakes'⟩

/-! ## The call -/

theorem drainResponses_idle (fuel : Nat) (s : St κ) :
    Always (drainResponses K fuel) s fun _ t => t.cursorActive = 0 := by
  induction fuel generalizing s with
  | zero => exact .failure
  | succ fuel ih => exact .get_bind (.ite (fun h => .pure h) fun _ => .skip fun _ t => ih t)

theorem clearQueue_idle (s : St κ) : Always (clearQueue K) s fun _ t => t.cursorActive = 0 :=
  .get_bind (.ite (fun h => .pure h) fun _ => .skip fun _ _ => .get_bind (drainResponses_idle _ _))

theorem clearQueues_idle (hc : c.Whole view) :
    Always (foldServers (fun _ => clearQueue K) (List.range c.memc.serverCount) ()) c fun _ d =>
      d.Whole view ∧ d.AllIdle := by
  have heach := foldServers_each (E := fun _ t : St κ => t.cursorActive = 0) (fun _ s => clearQueue_idle (K := K) s) ()
    (nodup_range (n := c.memc.serverCount)) c
  refine ((foldServers_whole (fun _ _ => clearQueue_calls) () hc).and heach).mono fun _ d ⟨hd, hlength, hall⟩ => ?_
  refine ⟨hd, fun k conn hk => ?_⟩
  have hlt : k < c.conns.length := hlength ▸ (List.getElem?_eq_some_iff.mp hk).1
  obtain ⟨s, t, -, ht, hkt⟩ := (hall k _ (List.getElem?_eq_getElem hlt)).2 (mem_range.mpr (hc.serverCount ▸ hlt))
  rw [hk] at hkt
  rw [Option.some.inj hkt]
  exact ht

/-- How the client asks for keys. -/
def Client.mgetMode (c : Client κ) (keys : List Bytes) : MgetMode :=
  if c.memc.flags.binaryProtocol then
    if c.memc.numberOfReplicas = 0 then .binary (keys.length == 1) else .replicated
  else .text (ascii (if c.memc.flags.supportCas then "gets" else "get"))

theorem Client.mgetMode_view (h : d.memc.getView = c.memc.getView) (keys : List Bytes) :
    d.mgetMode keys = c.mgetMode keys := by
  have hflags : d.memc.getView.flags = c.memc.getView.flags := by rw [h]
  have hreplicas : d.memc.getView.numberOfReplicas = c.memc.getView.numberOfReplicas := by rw [h]
  change d.memc.flags = c.memc.flags at hflags
  change d.memc.numberOfReplicas = c.memc.numberOfReplicas at hreplicas
  unfold Client.mgetMode
  rw [hflags, hreplicas]

/-- What happens beside the steps of a multi-get: no connection is touched, or what is left of earlier calls is
read. -/
def Prepares (K : Kernel κ) (c d : Client κ) : Prop :=
  Aside c d ∨ foldServers (fun _ => clearQueue K) (List.range c.memc.serverCount) () c = some ((), d)

/-- A run that took these steps has asked for every key just if nothing went wrong. -/
def MgetReport (K : Kernel κ) (mode : MgetMode) (keys : List Bytes) (silent : Client κ → Client κ → Prop)
    (c c' : Client κ) : Prop :=
  ∃ steps, Trace (MgetStep.Of K mode keys) silent c steps c' ∧
    (mode.closes → steps.filterMap (fun l => l.event.number) = List.range keys.length) ∧
    (AskedAll mode keys.length steps ↔ Unfailing mode keys.length steps)

/-- The requests were sent, and then `f` closes those of all servers. -/
theorem foldServers_reports {a : α}
    (hf : ∀ a s, Always (f a) s fun a' t => ok a' → ok a ∧ (s.cursorActive = 0 → t = s) ∧ (s.cursorActive ≠ 0 → mode.Closes K s true t))
    (hmode : mode.closes) (hidle : c.AllIdle) (hsends : MgetRun K mode keys c sends d)
    (hnumbers : SendsKeys 0 keys.length sends) (hd : d.Whole view) :
    Always (foldServers f (List.range d.memc.serverCount) a) d fun a' c' =>
      ok a' → MgetReport K mode keys Aside c c' := by
  refine (foldServers_closes keys hf a d).mono fun a' c' h hok => ?_
  obtain ⟨-, closes, hcloses, hclose, hall⟩ := h hok
  have hserver (k : Nat) (hk : d.AwaitsAt k) : ∃ l ∈ closes, l.event = .close k true := by
    refine hall k (mem_range.mpr ?_) hk
    obtain ⟨conn, hconn, -⟩ := hk
    rw [hd.serverCount]
    exact (List.getElem?_eq_some_iff.mp hconn).1
  obtain ⟨hsteps, hiff⟩ := askedAll_closed_iff hmode hidle hsends hnumbers hcloses hclose hserver
  exact ⟨sends ++ closes, hsends.append hcloses, fun _ => hsteps, hiff⟩

theorem not_success_of_isFailed {rc : ReturnT} (h : rc.isFailed = true) : rc ≠ .success := by
  rintro rfl
  exact absurd h (by decide)

section

variable (hc : c.Whole view) (hidle : c.AllIdle)
include hc hidle

theorem asciiMget_reports (htext : c.memc.flags.binaryProtocol = false) :
    Always (asciiMget K H env master keys) c fun rc c' =>
      rc = .success → MgetReport K (c.mgetMode keys) keys Aside c c' := by
  have hmode : c.mgetMode keys = .text (ascii (if c.memc.flags.supportCas then "gets" else "get")) := by
    unfold Client.mgetMode
    rw [htext]
    rfl
  rw [hmode]
  refine .get_bind ((sendKeys_run _ _ drop_zero hc).bind fun m d ⟨hd, sends, hrun, hsends⟩ => ?_)
  refine .ite (fun _ => .ite (fun hfailed => .pure fun h => ?_) fun _ => ?_) fun _ => .get_bind ?_
  · exact absurd h (not_success_of_isFailed hfailed)
  · exact .get_bind (.set_bind (.pure fun h => by cases h))
  refine (foldServers_reports endGet_closes trivial hidle hrun hsends hd).bind fun done c' hreport => ?_
  obtain ⟨success, failures⟩ := done
  refine .ite (fun _ => .pure fun h => by cases h) fun hnone => .ite (fun hsuccess => .pure fun _ => ?_)
    fun _ => .pure fun h => by cases h
  have hnone : m.failuresOccuredInSending = false ∧ failures = false := by simpa [hsuccess] using hnone
  exact hreport hnone.2

theorem simpleBinaryMget_reports (hmode : c.mgetMode keys = .binary (keys.length == 1)) :
    Always (simpleBinaryMget K H env master keys true) c fun rc c' =>
      rc = .success → MgetReport K (c.mgetMode keys) keys Aside c c' := by
  rw [hmode]
  refine .onClient_bind (.ite (fun hfailed => .pure fun h => absurd h (not_success_of_isFailed hfailed)) fun _ => ?_)
  refine (binarySendKeys_run _ _ drop_zero (hc.keyTests keys)).bind fun rc d ⟨hd, sends, hrun, hsends⟩ => ?_
  have htested : Aside c { c with memc := (keyTests keys c.memc).2 } := rfl
  refine .ite (fun _ => .get_bind ?_) fun h => absurd rfl h
  exact foldServers_reports sendNoop_closes trivial hidle (.silent htested hrun) hsends hd

theorem binaryMgetByKey_reports (hbinary : c.memc.flags.binaryProtocol = true) :
    Always (binaryMgetByKey K H env master keys true) c fun rc c' =>
      rc = .success → MgetReport K (c.mgetMode keys) keys Aside c c' := by
  refine .get_bind (.ite (fun hnone => ?_) fun hsome => ?_)
  · refine simpleBinaryMget_reports hc hidle ?_
    rw [Client.mgetMode, if_pos hbinary, if_pos hnone]
  · have hmode : c.mgetMode keys = .replicated := by rw [Client.mgetMode, if_pos hbinary, if_neg hsome]
    rw [hmode]
    refine (keyServers_whole 0 keys hc).bind fun hash d ⟨_, hcd⟩ => ?_
    refine (replicationBinaryMget_run _ _ d).bind fun _ c' ⟨steps, hash', hrun, htakes⟩ => .pure fun _ => ?_
    have hrun' : MgetRun K .replicated keys c steps c' := .silent hcd hrun
    exact ⟨steps, hrun', fun h => absurd h id, askedAll_replicated_iff hrun' hidle htakes.only htakes.once⟩

end

theorem MgetReport.prepares (h : MgetReport K mode keys Aside c c') :
    MgetReport K mode keys (Prepares K) c c' := by
  obtain ⟨steps, hrun, hsteps⟩ := h
  exact ⟨steps, hrun.mono fun _ _ => .inl, hsteps⟩

theorem MgetReport.after {silent : Client κ → Client κ → Prop} (hsilent : silent c d)
    (h : MgetReport K mode keys silent d c') : MgetReport K mode keys silent c c' := by
  obtain ⟨steps, hrun, hsteps⟩ := h
  exact ⟨steps, .silent hsilent hrun, hsteps⟩

/-- What the servers cannot be asked for does not keep a multi-get from reporting success: when it does, the request
for every key was written to a connection that is still open, and closed where the protocol needs it, just if no
request failed (with replicas: a server took each key, and nothing failed later on that server). -/
theorem mget_asks_all (K : Kernel κ) (H : Hashkit.Hashes) (env : Nat → Env) (groupKey : Bytes) (keys : List Bytes)
    (c : Client κ) (hrest : c.AtRest) (hcount : c.memc.serverCount = c.conns.length) :
    Always (memcachedMgetByKey K H env groupKey keys) c fun rc c' =>
      rc = .success → MgetReport K (c.mgetMode keys) keys (Prepares K) c c' := by
  have hset (rc : ReturnT) (h : rc ≠ .success) (message : String) (d : Client κ) {Q : Client κ → Prop} :
      Always (onClient fun memc => memc.setError rc message) d fun rc e => rc = .success → Q e :=
    .get_bind (.set_bind (.pure fun hok => absurd hok h))
  refine (initializeQuery_opened hrest).bind fun rc d ⟨hopened, _⟩ => ?_
  have hd : d.Whole c.memc.getView :=
    ⟨hopened.memc.getView, by rw [hopened.memc.serverCount, hcount, hopened.conns], hopened.atRest⟩
  refine .ite (fun hfailed => .pure fun h => absurd h (not_success_of_isFailed hfailed)) fun _ => .get_bind ?_
  refine .ite (fun _ => hset _ (by decide) _ _) fun _ => .ite (fun _ => hset _ (by decide) _ _) fun _ => ?_
  refine .onClient_bind (.ite (fun hfailed => .pure fun h => absurd h (not_success_of_isFailed hfailed)) fun _ => ?_)
  have hmaster : Always (if groupKey = [] then pure none else some <$> serverKey H (env 0) groupKey)
      { d with memc := (keyTests keys d.memc).2 } fun _ e => e.Whole c.memc.getView ∧ Aside c e := by
    have htested := hd.keyTests keys
    refine .ite (fun _ => .pure ⟨htested, hopened.conns⟩) fun _ => .map ?_
    exact (serverKey_whole groupKey htested).mono fun _ e ⟨he, hde⟩ => ⟨he, hde.trans hopened.conns⟩
  refine hmaster.bind fun master e ⟨he, hce⟩ => .get_bind ?_
  refine Always.bind (Q := fun _ f => f.Whole c.memc.getView ∧ f.AllIdle ∧ Prepares K e f)
    (fun _ f hrun => ?_) fun _ f ⟨hf, hidle, hef⟩ => .get_bind ?_
  · obtain ⟨hf, hidle⟩ := clearQueues_idle he _ _ hrun
    exact ⟨hf, hidle, .inr hrun⟩
  have hreport : Always (if f.memc.flags.binaryProtocol then binaryMgetByKey K H env master keys true
      else asciiMget K H env master keys) f fun rc c' => rc = .success → MgetReport K (f.mgetMode keys) keys Aside f c' :=
    .ite (binaryMgetByKey_reports hf hidle) fun h => asciiMget_reports hf hidle (by simpa using h)
  refine hreport.mono fun rc c' h hrc => ?_
  rw [← Client.mgetMode_view hf.view keys]
  exact ((h hrc).prepares.after hef).after (.inl hce)

/-- A client for the binary protocol. -/
def binaryGates (reachable : List Bool) (numberOfReplicas : UInt32) : Client Bool :=
  let c := gates reachable
  { c with memc.flags.binaryProtocol := true, memc.numberOfReplicas := numberOfReplicas }

/-- Two keys of two servers, one of which cannot be reached. -/
theorem mget_asks_all_gates :
    Ensures (memcachedMgetByKey gate fnvHashes (fun _ => ⟨0, 0⟩) [] [[97], [98]]) (gates [true, false])
      fun rc c' => rc = .success ∧
        MgetReport gate (.text (ascii "get")) [[97], [98]] (Prepares gate) (gates [true, false]) c' := by
  have hsuccess : Ensures (memcachedMgetByKey gate fnvHashes (fun _ => ⟨0, 0⟩) [] [[97], [98]])
      (gates [true, false]) fun rc _ => rc = .success := by decide +kernel
  obtain ⟨rc, c', hrun, hrc⟩ := hsuccess
  exact ⟨rc, c', hrun, hrc, mget_asks_all gate fnvHashes (fun _ => ⟨0, 0⟩) [] [[97], [98]]
    (gates [true, false]) ⟨rfl, by decide⟩ rfl rc c' hrun hrc⟩

/-- The call reports success although a server was never asked for its key: with the text protocol, with the binary
one if the server that is reached comes last, and with replicas even if no server is reached. -/
theorem mget_misses :
    Ensures (memcachedMget gate fnvHashes (fun _ => ⟨0, 0⟩) [[97], [98]]) (gates [true, false])
      (fun rc c' => rc = .success ∧ c'.sentTo = [ascii "get a" ++ [13, 10], []]) ∧
    Ensures (memcachedMget gate fnvHashes (fun _ => ⟨0, 0⟩) [[97], [98]]) (binaryGates [false, true] 0)
      (fun rc c' => rc = .success ∧
        c'.sentTo = [[], requestHeader .getkq 1 1 0 1 0 ++ [98] ++ requestHeader .noop 2 0 0 0 0]) ∧
    Ensures (memcachedMget gate fnvHashes (fun _ => ⟨0, 0⟩) [[97], [98]]) (binaryGates [false, false] 1)
      (fun rc c' => rc = .success ∧ c'.sentTo = [[], []]) :=
  ⟨by decide +kernel, by decide +kernel, by decide +kernel⟩

end LM
