import LibMemcached.Framework.Trace
import LibMemcached.Proof.Delivery

/-!
# Replicas

An item is stored on its own server and on the following ones, around the list of servers (`placement`). The
functions that store, delete and get replicated items are described by the calls they make: `VdoCall` for the
writers and `Asks` for the multi-get, which tries the servers of a key one round after the other.

Whether a key is sent depends on the rounds before. Round `r` asks for a key on the server `place x r`; a key
is still open after it if all its servers up to round `r` refuse (`Refused`), and the next round takes place
only if the round found a server that refuses and was not met before (`Fresh`). The induction follows the two
loops; `Stage` says what holds before key `x` of round `r`.
-/

namespace LM

open List

variable {κ α : Type} {K : Kernel κ} {count k home y q : Nat} {c : Client κ} {replicas r : Nat}

/-- The servers of an item whose own server is `home`. -/
def placement (count replicas home : Nat) : Set Nat := { k | ∃ i ≤ replicas, k = (home + i) % count }

/-! ## Functions of one server that return -/

/-- Run at rest, `m` returns and keeps what a call keeps. -/
def Returns (m : Act κ α) : Prop := ∀ s : St κ, s.AtRest → Ensures m s fun _ t => Kept s t

namespace Returns

variable {β : Type} {m m' : Act κ α} {f : α → Act κ β}

theorem pure {a : α} : Returns (pure a : Act κ α) := fun _ _ => ensures_pure.mpr .rfl

theorem bind (h : Returns m) (hf : ∀ a, Returns (f a)) : Returns (m >>= f) := fun s hs =>
  (h s hs).bind fun a t ht => (hf a t (ht.atRest hs)).mono fun _ _ hu => ht.trans hu

theorem get_bind {f : St κ → Act κ α} (h : ∀ s, Returns (f s)) : Returns (get >>= f) := fun s hs => h s s hs

theorem ite {c : Prop} [Decidable c] (ht : c → Returns m) (hf : ¬c → Returns m') :
    Returns (if c then m else m') := fun s hs => ensures_ite (fun hc => ht hc s hs) fun hc => hf hc s hs

theorem of_calls (h : ∀ s, Calls m s) (hr : ∀ s : St κ, s.AtRest → Ensures m s fun _ _ => True) : Returns m :=
  fun s hs => ((hr s hs).and_always (h s hs)).mono fun _ _ ht => ht.2

end Returns

theorem memcachedConnect_returns : Returns (memcachedConnect K) := by
  refine .of_calls (fun _ => memcachedConnect_calls) fun s _ => ?_
  simp only [memcachedConnect, ensures_bind, ensures_get]
  refine ensures_ite (fun _ => ensures_pure.mpr trivial) fun _ => ?_
  split
  · exact ensures_bind.mpr (ensures_set.mpr (ensures_pure.mpr trivial))
  · simp only [setErrorText, ensures_bind, ensures_set, ensures_modify, ensures_pure]

theorem memcachedIoWrite_returns (cells : List OutByte) (withFlush : Bool) :
    Returns (memcachedIoWrite K cells withFlush) := fun _ hs =>
  (memcachedIoWrite_writes cells withFlush hs.isPurging False.elim hs.writeBuffer).mono fun _ _ h => h.2.kept

theorem memcachedIoWritev_returns {vector : List (List OutByte)} (withFlush : Bool) :
    Returns (memcachedIoWritev K vector withFlush) := fun _ hs =>
  (memcachedIoWritev_writes vector withFlush hs.isPurging False.elim hs.writeBuffer).mono fun _ _ h => h.2.kept

theorem modify_returns {f : St κ → St κ} (h : ∀ s, Kept s (f s)) : Returns (modify f : Act κ PUnit) := fun s _ =>
  ensures_modify.mpr (h s)

theorem closeSocket_returns : Returns (closeSocket K) :=
  .of_calls (fun _ => closeSocket_calls) fun _ _ => ensures_modify.mpr trivial

theorem responseIncrement_returns : Returns (responseIncrement : Act κ Unit) :=
  modify_returns fun _ => ⟨.rfl, rfl, prefix_rfl, id⟩

theorem responseDecrement_returns : Returns (responseDecrement : Act κ Unit) :=
  modify_returns fun _ => ⟨.rfl, rfl, prefix_rfl, id⟩

theorem initializeBinaryRequest_returns : Returns (initializeBinaryRequest : Act κ UInt32) :=
  .bind (modify_returns fun _ => ⟨.rfl, rfl, prefix_rfl, id⟩) fun _ => .get_bind fun _ => .pure

theorem writeRequest_returns (quiet : Bool) (vector : List Bytes) (withFlush : Bool) :
    Returns (writeRequest K quiet vector withFlush) := fun s hs =>
  (memcachedIoWritev_returns withFlush { s with issued := s.issued + 1 } ⟨hs.isPurging, hs.writeBuffer⟩).mono
    fun _ _ h => ⟨h.memc, h.isPurging, h.purgeLog, h.writeBuffer⟩

theorem setError_returns {rc : ReturnT} : Returns (setError rc : Act κ ReturnT) :=
  .of_calls (fun _ => setError_calls rc) fun _ _ => ensures_bind.mpr (ensures_modify.mpr (ensures_pure.mpr trivial))

theorem vdo_returns (sent : Bool) : Returns (if sent then vdoWritten else vdoFailed K) := by
  refine .ite (fun _ => .get_bind fun _ => ?_) fun _ => .get_bind fun _ => ?_
  · exact .bind (.ite (fun _ => responseIncrement_returns) fun _ => .pure) fun _ => .pure
  · exact .bind (.ite (fun _ => setError_returns) fun _ => .pure) fun _ =>
      closeSocket_returns.bind fun _ => .pure

theorem memcachedVdo_returns {quiet : Bool} {vector : List Bytes} {withFlush : Bool} :
    Returns (memcachedVdo K quiet vector withFlush) := by
  refine memcachedConnect_returns.bind fun rc => .ite (fun _ => .pure) fun _ s hs => ?_
  exact ((writeRequest_returns quiet vector withFlush).bind vdo_returns) s hs

theorem askReplica_returns (key : Bytes) : Returns (askReplica K key) := by
  refine .get_bind fun s => .bind (.ite (fun _ => memcachedConnect_returns) fun _ => .pure) fun rc => ?_
  refine .ite (fun _ => closeSocket_returns.bind fun _ => .pure) fun _ => ?_
  refine initializeBinaryRequest_returns.bind fun _ => (writeRequest_returns _ _ _).bind fun sent => ?_
  refine .ite (fun _ => responseIncrement_returns.bind fun _ => .pure) fun _ => ?_
  exact closeSocket_returns.bind fun _ => .pure

/-- In the binary protocol an answer is read without a buffer for lines. -/
theorem memcachedResponse_returns {s : St κ} (hs : s.AtRest) (hbinary : s.memc.flags.binaryProtocol = true) :
    Ensures (memcachedResponse K 0) s fun _ t => Kept s t := by
  have hflush : Ensures (if s.memc.flags.noBlock then memcachedIoWrite K [] true else pure true) s
      fun _ t => Kept s t :=
    ensures_ite (fun _ => memcachedIoWrite_returns [] true s hs) fun _ => ensures_pure.mpr .rfl
  simp only [memcachedResponse, ensures_bind, ensures_get]
  refine hflush.mono fun _ t ht => ?_
  have hbt : t.memc.flags.binaryProtocol = true := by rw [ht.flags]; exact hbinary
  have hnojunk : ¬((!t.memc.flags.binaryProtocol && decide (1 < t.cursorActive)) = true) := by simp [hbt]
  rw [if_neg hnojunk]
  have hread : ¬ReturnT.success.isFatal = true := by decide
  refine ensures_pure.mpr ?_
  rw [if_neg hread]
  refine (readOneResponse_reads _ _ (.inl hbt)).mono fun reply u hu => ?_
  simp only [ensures_modify, ensures_pure]
  have hku := ht.trans hu.2.2.2.kept
  exact ⟨hku.memc, hku.isPurging, hku.purgeLog, hku.writeBuffer⟩

theorem onServer_runs {m : Act κ α} (hc : c.AtRest) (hk : k < c.conns.length)
    (hm : ∀ s : St κ, s.AtRest → s.memc = c.memc → Ensures m s fun _ t => Kept s t) :
    Ensures (onServer k m) c fun a c' =>
      onServer k m c = some (a, c') ∧ c.Stays c' ∧ c'.conns.length = c.conns.length := by
  have hconn : c.conns[k]? = some c.conns[k] := List.getElem?_eq_getElem hk
  have hs : St.AtRest ⟨c.conns[k], c.toShared⟩ := ⟨hc.isPurging, hc.writeBuffer _ (getElem_mem hk)⟩
  obtain ⟨a, t, hrun, hkept⟩ := hm _ hs rfl
  have hon : onServer k m c = some (a, { c with toShared := t.toShared, conns := c.conns.set k t.toConn }) := by
    simp [onServer, hconn, hrun]
  refine ⟨a, _, hon, hon, ⟨hkept.memc, rfl, (hkept.atRest hs).isPurging, fun conn hmem => ?_⟩,
    length_set⟩
  rcases mem_or_eq_of_mem_set hmem with hmem | rfl
  · exact hc.writeBuffer conn hmem
  · exact (hkept.atRest hs).writeBuffer

/-! ## Storing and deleting -/

/-- A call of `memcached_vdo` for server `call.1` that returned `call.2`. -/
def VdoCall (K : Kernel κ) (call : Nat × ReturnT) (c c' : Client κ) : Prop :=
  ∃ quiet vector withFlush, onServer call.1 (memcachedVdo K quiet vector withFlush) c = some (call.2, c')

/-- What goes on between those calls: a request is numbered, an answer is no longer awaited, or one is read. -/
def Upkeep (K : Kernel κ) (c c' : Client κ) : Prop :=
  ∃ k, (∃ id, onServer k initializeBinaryRequest c = some (id, c')) ∨
    onServer k responseDecrement c = some ((), c') ∨ ∃ rc, onServer k (memcachedResponse K 0) c = some (rc, c')

/-- A client at rest with `count` servers, each of which has a connection. -/
structure Client.Connects (c : Client κ) (count : Nat) : Prop where
  atRest : c.AtRest
  conns : c.conns.length = count
  serverCount : c.memc.serverCount = count

theorem Client.Connects.next {c' : Client κ} (h : c.Connects count) (hs : c.Stays c')
    (hlen : c'.conns.length = c.conns.length) : c'.Connects count where
  atRest := hs.atRest
  conns := hlen.trans h.conns
  serverCount := by rw [hs.memc]; exact h.serverCount

theorem nextServer_eq (hk : k < count) : nextServer count k = (k + 1) % count := by
  unfold nextServer
  split
  · next h => rw [h, Nat.mod_self]
  · exact (Nat.mod_eq_of_lt (by omega)).symm

theorem following_succ (count replicas k : Nat) :
    (List.range (replicas + 1)).map (fun i => (k + 1 + i) % count) =
      (k + 1) % count :: (List.range replicas).map (fun i => ((k + 1) % count + 1 + i) % count) := by
  rw [range_succ_eq_map, map_cons, map_map]
  congr 1
  refine map_congr_left fun i _ => ?_
  show (k + 1 + (i + 1)) % count = _
  rw [Nat.add_assoc ((k + 1) % count), Nat.mod_add_mod, Nat.add_comm 1 i]

theorem replicate_calls {vector : List Bytes} (flush : Bool) {replicas : Nat} (hk : k < count)
    (hc : c.Connects count) :
    Ensures (replicate K vector flush replicas k) c fun _ c' => c'.Connects count ∧ c.Stays c' ∧
      ∃ calls, Trace (VdoCall K) (Upkeep K) c calls c' ∧
        calls.map Prod.fst = (List.range replicas).map fun i => (k + 1 + i) % count := by
  induction replicas generalizing k c with
  | zero => exact ensures_pure.mpr ⟨hc, ⟨.rfl, rfl, hc.atRest⟩, [], .nil c, rfl⟩
  | succ replicas ih =>
    simp only [replicate, ensures_bind, ensures_get, hc.serverCount, nextServer_eq hk]
    have hnext : (k + 1) % count < count := Nat.mod_lt _ (by omega)
    refine (onServer_runs hc.atRest (hc.conns ▸ hnext) fun s hs _ => memcachedVdo_returns s hs).mono
      fun rc d hd => ?_
    obtain ⟨hcall, hstays, hlen⟩ := hd
    have hcd := hc.next hstays hlen
    have hdecrement : Ensures (if rc.isSuccess then onServer ((k + 1) % count) responseDecrement else pure ()) d
        fun _ e => e.Connects count ∧ d.Stays e ∧ Trace (VdoCall K) (Upkeep K) d [] e := by
      refine ensures_ite (fun _ => ?_) fun _ => ensures_pure.mpr ⟨hcd, ⟨.rfl, rfl, hcd.atRest⟩, .nil d⟩
      refine (onServer_runs hcd.atRest (hcd.conns ▸ hnext) fun s hs _ => responseDecrement_returns s hs).mono
        fun _ e he => ?_
      exact ⟨hcd.next he.2.1 he.2.2, he.2.1, .silent ⟨_, .inr (.inl he.1)⟩ (.nil e)⟩
    refine hdecrement.mono fun _ e he => ?_
    obtain ⟨hce, hse, htrace⟩ := he
    refine (ih hnext hce).mono fun _ f hf => ?_
    obtain ⟨hcf, hsf, calls, hrest, hcalls⟩ := hf
    refine ⟨hcf, ?_, ((k + 1) % count, rc) :: calls, .step ⟨_, _, _, hcall⟩ (htrace.append hrest), ?_⟩
    · exact ⟨(hstays.memc.trans hse.memc).trans hsf.memc, hsf.routed.trans (hse.routed.trans hstays.routed),
        hsf.atRest⟩
    · rw [map_cons, hcalls, following_succ]

theorem mem_placement (hhome : home < count) (k : Nat) :
    k ∈ home :: (List.range replicas).map (fun i => (home + 1 + i) % count) ↔
      k ∈ placement count replicas home := by
  simp only [mem_cons, mem_map, mem_range, placement, Set.mem_ofPred_eq]
  constructor
  · rintro (rfl | ⟨i, hi, rfl⟩)
    · exact ⟨0, Nat.zero_le _, (Nat.mod_eq_of_lt hhome).symm⟩
    · exact ⟨1 + i, by omega, by rw [Nat.add_assoc]⟩
  · rintro ⟨i, hi, rfl⟩
    cases i with
    | zero => exact .inl (Nat.mod_eq_of_lt hhome)
    | succ i => exact .inr ⟨i, hi, by rw [Nat.add_assoc, Nat.add_comm 1 i]⟩

theorem memcachedSendBinary_placement (hhome : home < count) (hc : c.Connects count)
    (hbinary : c.memc.flags.binaryProtocol = true) (item : Item) (flush reply : Bool) :
    Ensures (memcachedSendBinary K home item flush reply .set) c fun _ c' =>
      ∃ rc calls, Trace (VdoCall K) (Upkeep K) c ((home, rc) :: calls) c' ∧
        (rc = .success → ∀ k, k ∈ home :: calls.map Prod.fst ↔
          k ∈ placement count c.memc.numberOfReplicas.toNat home) := by
  simp only [memcachedSendBinary, ensures_bind, ensures_get]
  refine (onServer_runs hc.atRest (hc.conns ▸ hhome) fun s hs _ => initializeBinaryRequest_returns s hs).mono
    fun id d hd => ?_
  have hcd := hc.next hd.2.1 hd.2.2
  have hnumber : Trace (VdoCall K) (Upkeep K) c [] d := .silent ⟨_, .inl ⟨id, hd.1⟩⟩ (.nil d)
  refine (onServer_runs hcd.atRest (hcd.conns ▸ hhome) fun s hs _ => memcachedVdo_returns s hs).mono
    fun rc e he => ?_
  have hce := hcd.next he.2.1 he.2.2
  have hwrite : Trace (VdoCall K) (Upkeep K) c [(home, rc)] e := hnumber.snoc ⟨_, _, _, he.1⟩
  refine ensures_ite (fun hrc => ?_) fun hrc => ?_
  · simp only [lastError, ensures_bind, ensures_get, ensures_pure]
    exact ⟨rc, [], hwrite, fun h => absurd h hrc⟩
  · simp only [if_true, ensures_bind]
    refine (replicate_calls false hhome hce).mono fun _ f hf => ?_
    obtain ⟨hcf, hsf, calls, htrace, hcalls⟩ := hf
    have hall : Trace (VdoCall K) (Upkeep K) c ((home, rc) :: calls) f := hwrite.append htrace
    have hplaces : rc = .success → ∀ k, k ∈ home :: calls.map Prod.fst ↔
        k ∈ placement count c.memc.numberOfReplicas.toNat home := fun _ k => by
      rw [hcalls, mem_placement hhome]
    refine ensures_ite (fun _ => ensures_pure.mpr ⟨rc, calls, hall, hplaces⟩) fun _ => ?_
    refine ensures_ite (fun _ => ensures_pure.mpr ⟨rc, calls, hall, hplaces⟩) fun _ => ?_
    have hbf : f.memc.flags.binaryProtocol = true := by
      rw [hsf.memc, he.2.1.memc, hd.2.1.memc]
      exact hbinary
    refine (onServer_runs hcf.atRest (hcf.conns ▸ hhome) fun s hs hmemc =>
      memcachedResponse_returns hs (by rw [hmemc]; exact hbf)).mono fun rc' g hg => ?_
    refine ⟨rc, calls, ?_, hplaces⟩
    have hread : Trace (VdoCall K) (Upkeep K) f [] g := .silent ⟨_, .inr (.inr ⟨rc', hg.1⟩)⟩ (.nil g)
    simpa using hall.append hread

theorem binaryDelete_placement (hhome : home < count) (hc : c.Connects count) (key : Bytes)
    (reply isBuffering : Bool) : Ensures (binaryDelete K home key reply isBuffering) c fun _ c' =>
      ∃ calls, Trace (VdoCall K) (Upkeep K) c calls c' ∧
        ∀ k, k ∈ calls.map Prod.fst ↔ k ∈ placement count c.memc.numberOfReplicas.toNat home := by
  simp only [binaryDelete, ensures_bind, ensures_get]
  refine (onServer_runs hc.atRest (hc.conns ▸ hhome) fun s hs _ => initializeBinaryRequest_returns s hs).mono
    fun id d hd => ?_
  have hcd := hc.next hd.2.1 hd.2.2
  have hnumber : Trace (VdoCall K) (Upkeep K) c [] d := .silent ⟨_, .inl ⟨id, hd.1⟩⟩ (.nil d)
  refine (onServer_runs hcd.atRest (hcd.conns ▸ hhome) fun s hs _ => memcachedVdo_returns s hs).mono
    fun rc e he => ?_
  have hce := hcd.next he.2.1 he.2.2
  refine (replicate_calls _ hhome hce).mono fun _ f hf => ?_
  obtain ⟨-, -, calls, htrace, hcalls⟩ := hf
  have hwrite : Trace (VdoCall K) (Upkeep K) c [(home, rc)] e := hnumber.snoc ⟨_, _, _, he.1⟩
  refine ensures_pure.mpr ⟨(home, rc) :: calls, hwrite.append htrace, fun k => ?_⟩
  rw [map_cons, hcalls, mem_placement hhome]

/-! ## The rounds of a multi-get -/

/-- The key number `key` was asked for on a server, which took the request or did not. -/
structure Ask where
  key : Nat
  server : Nat
  taken : Bool

/-- The step of the client that `ask` notes. -/
def Asks (K : Kernel κ) (keys : List Bytes) (ask : Ask) (c c' : Client κ) : Prop :=
  ∃ key, keys[ask.key]? = some key ∧ onServer ask.server (askReplica K key) c = some (ask.taken, c')

/-- How many servers the request for key number `x` was sent to. -/
def timesSent (asks : List Ask) (x : Nat) : Nat := asks.countP fun ask => ask.key == x && ask.taken

/-- All servers the key is asked for on up to round `r` refuse. -/
def Refused (accepts : Nat → Bool) (place : Nat → Nat → Nat) (x r : Nat) : Prop :=
  ∀ q ≤ r, accepts (place x q) = false

/-- Round `r` meets a server that refuses and that no round before it met. -/
def Fresh (accepts : Nat → Bool) (place : Nat → Nat → Nat) (number r : Nat) : Prop :=
  ∃ x < number, Refused accepts place x r ∧
    ∀ y < number, ∀ q < r, Refused accepts place y q → place y q ≠ place x r

section Rounds

variable {accepts : Nat → Bool} {place : Nat → Nat → Nat} {number r x : Nat}

/-- Key `y` comes before key `x` of round `r` in round `q`. -/
def Before (r x q y : Nat) : Prop := q < r ∨ q = r ∧ y < x

theorem before_succ {x : Nat} : Before r (x + 1) q y ↔ Before r x q y ∨ q = r ∧ y = x := by
  unfold Before
  omega

theorem before_zero {number : Nat} (hy : y < number) : Before (r + 1) 0 q y ↔ Before r number q y := by
  unfold Before
  omega

/-- The key was sent before key `x` of round `r`. -/
def Served (accepts : Nat → Bool) (place : Nat → Nat → Nat) (r x y : Nat) : Prop :=
  ∃ q, Before r x q y ∧ accepts (place y q) = true

/-- A server was found to refuse before key `x` of round `r`. -/
def Met (accepts : Nat → Bool) (place : Nat → Nat → Nat) (number r x k : Nat) : Prop :=
  ∃ y < number, ∃ q, Before r x q y ∧ Refused accepts place y q ∧ place y q = k

theorem served_succ : Served accepts place r (x + 1) y ↔
    Served accepts place r x y ∨ y = x ∧ accepts (place x r) = true := by
  simp only [Served, before_succ]
  constructor
  · rintro ⟨q, hq | ⟨rfl, rfl⟩, hacc⟩
    · exact .inl ⟨q, hq, hacc⟩
    · exact .inr ⟨rfl, hacc⟩
  · rintro (⟨q, hq, hacc⟩ | ⟨rfl, hacc⟩)
    · exact ⟨q, .inl hq, hacc⟩
    · exact ⟨r, .inr ⟨rfl, rfl⟩, hacc⟩

theorem met_succ (hx : x < number) : Met accepts place number r (x + 1) k ↔
    Met accepts place number r x k ∨ Refused accepts place x r ∧ place x r = k := by
  simp only [Met, before_succ]
  constructor
  · rintro ⟨y, hy, q, hq | ⟨rfl, rfl⟩, hrefused, hk⟩
    · exact .inl ⟨y, hy, q, hq, hrefused, hk⟩
    · exact .inr ⟨hrefused, hk⟩
  · rintro (⟨y, hy, q, hq, hrefused, hk⟩ | ⟨hrefused, hk⟩)
    · exact ⟨y, hy, q, .inl hq, hrefused, hk⟩
    · exact ⟨x, hx, r, .inr ⟨rfl, rfl⟩, hrefused, hk⟩

theorem refused_iff (hopen : ¬Served accepts place r x x) :
    Refused accepts place x r ↔ accepts (place x r) = false := by
  constructor
  · exact fun h => h r (Nat.le_refl r)
  · intro h q hq
    rcases Nat.lt_or_eq_of_le hq with hlt | rfl
    · exact Bool.eq_false_iff.mpr fun hacc => hopen ⟨q, .inl hlt, hacc⟩
    · exact h

theorem not_refused (hsent : Served accepts place r x x) : ¬Refused accepts place x r := by
  obtain ⟨q, hq, hacc⟩ := hsent
  have hle : q ≤ r := by unfold Before at hq; omega
  intro h
  rw [h q hle] at hacc
  exact Bool.false_ne_true hacc

theorem Met.refuses (h : Met accepts place number r x k) : accepts k = false := by
  obtain ⟨y, -, q, -, hrefused, rfl⟩ := h
  exact hrefused q (Nat.le_refl q)

/-- A server met before a key of round `r` was met before the round or for a key of the round. -/
theorem met_cases : Met accepts place number r x k ↔
    Met accepts place number r 0 k ∨ ∃ y < number, y < x ∧ Refused accepts place y r ∧ place y r = k := by
  constructor
  · rintro ⟨y, hy, q, hlt | ⟨rfl, hyx⟩, hrefused, hk⟩
    · exact .inl ⟨y, hy, q, .inl hlt, hrefused, hk⟩
    · exact .inr ⟨y, hy, hyx, hrefused, hk⟩
  · rintro (⟨y, hy, q, hq, hrefused, hk⟩ | ⟨y, hy, hyx, hrefused, hk⟩)
    · exact ⟨y, hy, q, .inl (by unfold Before at hq; omega), hrefused, hk⟩
    · exact ⟨y, hy, r, .inr ⟨rfl, hyx⟩, hrefused, hk⟩

theorem not_fresh_iff : ¬Fresh accepts place number r ↔
    ∀ x < number, Refused accepts place x r → Met accepts place number r 0 (place x r) := by
  simp only [Fresh, not_exists, not_and, not_forall, Classical.not_not]
  refine forall_congr' fun x => forall_congr' fun _ => forall_congr' fun _ => ?_
  constructor
  · rintro ⟨y, hy, q, hq, hrefused, hk⟩
    exact ⟨y, hy, q, .inl hq, hrefused, hk⟩
  · rintro ⟨y, hy, q, hq, hrefused, hk⟩
    exact ⟨y, hy, q, by unfold Before at hq; omega, hrefused, hk⟩

/-- What holds before key `x` of round `r`, if exactly the servers in `accepts` take requests: `homes` are the
own servers of the keys. -/
structure Stage (accepts : Nat → Bool) (place : Nat → Nat → Nat) (count : Nat) (homes : List Nat) (r x : Nat)
    (rep : Replication) (asks : List Ask) : Prop where
  length : rep.hash.length = homes.length
  sent (y : Nat) : Served accepts place r x y → rep.hash.getD y count = count
  unsent (y : Nat) : ¬Served accepts place r x y → rep.hash.getD y count = homes.getD y count
  dead (k : Nat) : k ∈ rep.dead ↔ Met accepts place homes.length r x k
  success : rep.success = true ↔
    ∀ y < x, Refused accepts place y r → Met accepts place homes.length r 0 (place y r)
  once (y : Nat) : y < homes.length → Served accepts place r x y → timesSent asks y = 1
  never (y : Nat) : ¬Served accepts place r x y → timesSent asks y = 0

theorem timesSent_snoc (asks : List Ask) (ask : Ask) (y : Nat) :
    timesSent (asks ++ [ask]) y = timesSent asks y + if ask.key = y ∧ ask.taken = true then 1 else 0 := by
  simp [timesSent, countP_append, countP_cons]

namespace Stage

variable {count : Nat} {homes : List Nat} {rep : Replication} {asks : List Ask}

theorem start : Stage accepts place count homes 0 0 { hash := homes } [] where
  length := rfl
  sent y := by
    rintro ⟨q, hq, -⟩
    unfold Before at hq
    omega
  unsent _ _ := rfl
  dead k := by
    refine iff_of_false (not_mem_nil) ?_
    rintro ⟨y, -, q, hq, -⟩
    unfold Before at hq
    omega
  success := iff_of_true rfl fun y hy => absurd hy (Nat.not_lt_zero y)
  once y _ := by
    rintro ⟨q, hq, -⟩
    unfold Before at hq
    omega
  never _ _ := rfl

section

variable (h : Stage accepts place count homes r x rep asks)
include h

theorem served_of_closed (hhomes : ∀ home ∈ homes, home < count) (hx : x < homes.length)
    (hclosed : rep.hash.getD x count = count) : Served accepts place r x x := by
  by_contra hopen
  rw [h.unsent x hopen, getD_eq_getElem _ _ hx] at hclosed
  exact Nat.lt_irrefl _ (hclosed ▸ hhomes _ (getElem_mem hx))

/-- The round goes on as before, if the server of the key was met. -/
theorem success_succ (hmet : Refused accepts place x r → Met accepts place homes.length r x (place x r)) :
    rep.success = true ↔
      ∀ y < x + 1, Refused accepts place y r → Met accepts place homes.length r 0 (place y r) := by
  rw [h.success]
  refine ⟨fun hall y hy hrefused => ?_, fun hall y hy => hall y (by omega)⟩
  rcases Nat.lt_succ_iff_lt_or_eq.mp hy with hlt | rfl
  · exact hall y hlt hrefused
  · rcases met_cases.mp (hmet hrefused) with hbefore | ⟨z, -, hzx, hz, hplace⟩
    · exact hbefore
    · exact hplace ▸ hall z hzx hz

theorem skip (hx : x < homes.length) (hskip : Served accepts place r x x ∨ place x r ∈ rep.dead) :
    Stage accepts place count homes r (x + 1) rep asks := by
  have hmet : Refused accepts place x r → Met accepts place homes.length r x (place x r) := by
    rcases hskip with hsent | hdead
    · exact fun hrefused => absurd hrefused (not_refused hsent)
    · exact fun _ => (h.dead _).mp hdead
  have hserved (y : Nat) : Served accepts place r (x + 1) y ↔ Served accepts place r x y := by
    rw [served_succ, or_iff_left_of_imp]
    rintro ⟨rfl, hacc⟩
    refine hskip.resolve_right fun hdead => ?_
    rw [((h.dead _).mp hdead).refuses] at hacc
    exact Bool.false_ne_true hacc
  refine ⟨h.length, fun y hy => h.sent y ((hserved y).mp hy), fun y hy => h.unsent y (mt (hserved y).mpr hy),
    fun k => ?_, h.success_succ hmet, fun y hlt hy => h.once y hlt ((hserved y).mp hy),
    fun y hy => h.never y (mt (hserved y).mpr hy)⟩
  rw [h.dead, met_succ hx, or_iff_left_of_imp]
  rintro ⟨hrefused, rfl⟩
  exact hmet hrefused

variable (hx : x < homes.length) (hopen : ¬Served accepts place r x x)
include hx hopen

theorem accept (hacc : accepts (place x r) = true) :
    Stage accepts place count homes r (x + 1) { rep with hash := rep.hash.set x count }
      (asks ++ [⟨x, place x r, true⟩]) := by
  have hnot : ¬Refused accepts place x r := fun hrefused => by
    rw [hrefused r (Nat.le_refl r)] at hacc
    exact Bool.false_ne_true hacc
  have hlen : x < rep.hash.length := h.length ▸ hx
  have hset (y : Nat) : (rep.hash.set x count).getD y count = if x = y then count else rep.hash.getD y count := by
    by_cases hxy : x = y
    · subst hxy
      rw [if_pos rfl, getD_eq_getElem?_getD, List.getElem?_set_self hlen]
      rfl
    · rw [if_neg hxy, getD_eq_getElem?_getD, List.getElem?_set_ne hxy, getD_eq_getElem?_getD]
  refine ⟨(length_set).trans h.length, fun y hy => ?_, fun y hy => ?_, fun k => ?_,
    h.success_succ fun hrefused => absurd hrefused hnot, fun y hlt hy => ?_, fun y hy => ?_⟩
  · show (rep.hash.set x count).getD y count = count
    rw [hset]
    split
    · rfl
    · next hxy =>
      rcases served_succ.mp hy with hy | ⟨rfl, -⟩
      · exact h.sent y hy
      · exact absurd rfl hxy
  · rw [served_succ, not_or] at hy
    show (rep.hash.set x count).getD y count = _
    rw [hset, if_neg fun hxy => hy.2 ⟨hxy.symm, hacc⟩]
    exact h.unsent y hy.1
  · rw [met_succ hx, or_iff_left fun h => hnot h.1]
    exact h.dead k
  · rw [timesSent_snoc]
    rcases served_succ.mp hy with hy | ⟨rfl, -⟩
    · rw [h.once y hlt hy, if_neg]
      rintro ⟨rfl, -⟩
      exact hopen hy
    · rw [h.never y hopen, if_pos ⟨rfl, rfl⟩]
  · rw [served_succ, not_or] at hy
    rw [timesSent_snoc, h.never y hy.1, if_neg]
    rintro ⟨rfl, -⟩
    exact hy.2 ⟨rfl, hacc⟩

theorem refuse (hnew : place x r ∉ rep.dead) (hacc : accepts (place x r) = false) :
    Stage accepts place count homes r (x + 1) { rep with dead := place x r :: rep.dead, success := false }
      (asks ++ [⟨x, place x r, false⟩]) := by
  have hrefused : Refused accepts place x r := (refused_iff hopen).mpr hacc
  have hserved (y : Nat) : Served accepts place r (x + 1) y ↔ Served accepts place r x y := by
    rw [served_succ, or_iff_left]
    rintro ⟨-, h⟩
    rw [hacc] at h
    exact Bool.false_ne_true h
  have htimes (y : Nat) : timesSent (asks ++ [⟨x, place x r, false⟩]) y = timesSent asks y := by
    rw [timesSent_snoc, if_neg fun h => Bool.false_ne_true h.2, Nat.add_zero]
  refine ⟨h.length, fun y hy => h.sent y ((hserved y).mp hy), fun y hy => h.unsent y (mt (hserved y).mpr hy),
    fun k => ?_, iff_of_false Bool.false_ne_true fun hall => ?_, fun y hlt hy => ?_, fun y hy => ?_⟩
  · rw [met_succ hx, mem_cons, h.dead, or_comm, eq_comm, and_iff_right hrefused]
  · exact hnew ((h.dead _).mpr (met_cases.mpr (.inl (hall x (Nat.lt_succ_self x) hrefused))))
  · rw [htimes]
    exact h.once y hlt ((hserved y).mp hy)
  · rw [htimes]
    exact h.never y (mt (hserved y).mpr hy)

end

variable (h : Stage accepts place count homes r homes.length rep asks)
include h

/-- The round is over: it met a new server just if it did not succeed. -/
theorem success_iff : rep.success = true ↔ ¬Fresh accepts place homes.length r := by
  rw [h.success, not_fresh_iff]

theorem round :
    Stage accepts place count homes (r + 1) 0 { rep with success := true } asks := by
  have hserved (y : Nat) (hy : y < homes.length) :
      Served accepts place (r + 1) 0 y ↔ Served accepts place r homes.length y :=
    exists_congr fun q => and_congr_left fun _ => before_zero hy
  refine ⟨h.length, fun y hy => ?_, fun y hy => ?_, fun k => ?_, iff_of_true rfl fun y hy => absurd hy (by omega),
    fun y hlt hy => h.once y hlt ((hserved y hlt).mp hy), fun y hy => h.never y fun hy' => ?_⟩
  · by_cases hlt : y < homes.length
    · exact h.sent y ((hserved y hlt).mp hy)
    · exact getD_eq_default _ _ (by rw [h.length]; omega)
  · by_cases hlt : y < homes.length
    · exact h.unsent y (mt (hserved y hlt).mpr hy)
    · exact (getD_eq_default _ _ (by rw [h.length]; omega)).trans (getD_eq_default _ _ (by omega)).symm
  · rw [h.dead]
    refine exists_congr fun y => and_congr_right fun hy => exists_congr fun q => and_congr_left fun _ => ?_
    exact (before_zero hy).symm
  · obtain ⟨q, hq, hacc⟩ := hy'
    exact hy ⟨q, by unfold Before at *; omega, hacc⟩

end Stage

end Rounds

/-! ## A multi-get of replicated items -/

/-- The run of `replication_binary_mget` up to key `x` of round `r`, from the client `c₀` on. -/
structure AskingUpTo (K : Kernel κ) (keys : List Bytes) (count replicas : Nat) (place : Nat → Nat → Nat)
    (homes : List Nat) (c₀ : Client κ) (r x : Nat) (rep : Replication) (c : Client κ) : Prop where
  connects : c.Connects count
  hash (y : Nat) : rep.hash.getD y count = count ∨ rep.hash.getD y count = homes.getD y count
  asks : ∃ asks, Trace (Asks K keys) (fun _ _ => False) c₀ asks c ∧
    (∀ ask ∈ asks, ask.key < homes.length ∧ ∃ q ≤ replicas, ask.server = place ask.key q) ∧
    ∀ accepts, (∀ ask ∈ asks, ask.taken = accepts ask.server) →
      Stage accepts place count homes r x rep asks ∧ ∀ q < r, Fresh accepts place homes.length q

section Rounds

variable {keys : List Bytes} {count replicas start : Nat} {randomizeRead : Bool} {homes : List Nat}
  {c₀ c : Client κ} {rep : Replication} {r x : Nat}

/-- Where round `q` asks for key `x`. -/
def askedAt (count replicas start : Nat) (randomizeRead : Bool) (homes : List Nat) (x q : Nat) : Nat :=
  replicaServer count replicas start randomizeRead (homes.getD x count) q

theorem replicaKey_progress (hhomes : ∀ home ∈ homes, home < count) (hx : x < homes.length) {key : Bytes}
    (hkey : keys[x]? = some key) (hr : r ≤ replicas)
    (h : AskingUpTo K keys count replicas (askedAt count replicas start randomizeRead homes) homes c₀ r x rep c) :
    Ensures (replicaKey K count replicas r start randomizeRead x key rep) c fun rep' c' =>
      AskingUpTo K keys count replicas (askedAt count replicas start randomizeRead homes) homes c₀ r (x + 1)
        rep' c' := by
  obtain ⟨asks, htrace, hasks, hstage⟩ := h.asks
  generalize hplace : askedAt count replicas start randomizeRead homes = place at *
  simp only [replicaKey]
  refine ensures_ite (fun hskip => ensures_pure.mpr ⟨h.connects, h.hash, asks, htrace, hasks,
    fun accepts haccepts => ?_⟩) fun hask => ?_
  · obtain ⟨hs, hfresh⟩ := hstage accepts haccepts
    refine ⟨hs.skip hx ?_, hfresh⟩
    by_cases hclosed : rep.hash.getD x count = count
    · exact .inl (hs.served_of_closed hhomes hx hclosed)
    · have hhome := (h.hash x).resolve_left hclosed
      have hserver := hskip.resolve_left hclosed
      rw [hhome] at hserver
      rw [← hplace]
      exact .inr hserver
  · rw [not_or] at hask
    obtain ⟨hopen, hnew⟩ := hask
    have hhome := (h.hash x).resolve_left hopen
    have hserver : replicaServer count replicas start randomizeRead (rep.hash.getD x count) r = place x r := by
      rw [hhome, ← hplace, askedAt]
    rw [hserver] at hnew ⊢
    have hlt : place x r < count := by
      rw [← hserver]
      exact Nat.mod_lt _ (Nat.zero_lt_of_lt (hhomes _ (getElem_mem hx)))
    refine (onServer_runs h.connects.atRest (h.connects.conns ▸ hlt) fun s hs _ => askReplica_returns key s hs).bind
      fun taken d hd => ?_
    obtain ⟨hrun, hstays, hlen⟩ := hd
    have hcd := h.connects.next hstays hlen
    have htrace' : Trace (Asks K keys) (fun _ _ => False) c₀ (asks ++ [⟨x, place x r, taken⟩]) d :=
      htrace.snoc ⟨key, hkey, hrun⟩
    have hasks' : ∀ ask ∈ asks ++ [⟨x, place x r, taken⟩],
        ask.key < homes.length ∧ ∃ q ≤ replicas, ask.server = place ask.key q := by
      intro ask hmem
      rcases mem_append.mp hmem with hmem | hmem
      · exact hasks ask hmem
      · rw [mem_singleton.mp hmem]
        exact ⟨hx, r, hr, rfl⟩
    have hunsent (accepts : Nat → Bool) (hs : Stage accepts place count homes r x rep asks) :
        ¬Served accepts place r x x := fun hserved => hopen (hs.sent x hserved)
    have hbefore (accepts : Nat → Bool)
        (hall : ∀ ask ∈ asks ++ [⟨x, place x r, taken⟩], ask.taken = accepts ask.server) :
        taken = accepts (place x r) ∧
          Stage accepts place count homes r x rep asks ∧ ∀ q < r, Fresh accepts place homes.length q :=
      ⟨hall _ (mem_append_right _ (mem_singleton.mpr rfl)),
        hstage accepts fun ask hmem => hall ask (mem_append_left _ hmem)⟩
    refine ensures_ite (fun htaken => ensures_pure.mpr ⟨hcd, fun y => ?_, _, htrace', hasks',
      fun accepts hall => ?_⟩) fun htaken => ensures_pure.mpr ⟨hcd, h.hash, _, htrace', hasks',
      fun accepts hall => ?_⟩
    · by_cases hxy : x = y
      · subst hxy
        refine .inl ?_
        rw [getD_eq_getElem?_getD]
        simp only [List.getElem?_set_self']
        cases rep.hash[x]? <;> rfl
      · have hset : (rep.hash.set x count).getD y count = rep.hash.getD y count := by
          rw [getD_eq_getElem?_getD, List.getElem?_set_ne hxy, getD_eq_getElem?_getD]
        rw [hset]
        exact h.hash y
    · obtain ⟨htaken', hs, hfresh⟩ := hbefore accepts hall
      rw [htaken] at htaken' ⊢
      exact ⟨hs.accept hx (hunsent accepts hs) htaken'.symm, hfresh⟩
    · obtain ⟨htaken', hs, hfresh⟩ := hbefore accepts hall
      rw [Bool.not_eq_true] at htaken
      rw [htaken] at htaken' ⊢
      exact ⟨hs.refuse hx (hunsent accepts hs) hnew htaken'.symm, hfresh⟩

theorem replicaKeys_progress (hhomes : ∀ home ∈ homes, home < count) (hlength : keys.length = homes.length)
    (hr : r ≤ replicas) {rest : List Bytes} (hrest : rest = keys.drop x)
    (h : AskingUpTo K keys count replicas (askedAt count replicas start randomizeRead homes) homes c₀ r x rep c)
    (hx : x ≤ homes.length) :
    Ensures (replicaKeys K count replicas r start randomizeRead x rest rep) c fun rep' c' =>
      AskingUpTo K keys count replicas (askedAt count replicas start randomizeRead homes) homes c₀ r homes.length
        rep' c' := by
  induction rest generalizing x rep c with
  | nil =>
    have hend : x = homes.length := by
      have := drop_eq_nil_iff.mp hrest.symm
      omega
    exact ensures_pure.mpr (hend ▸ h)
  | cons key rest ih =>
    have hlt : x < keys.length := by
      by_contra hge
      rw [drop_eq_nil_of_le (by omega)] at hrest
      exact cons_ne_nil _ _ hrest
    rw [drop_eq_getElem_cons hlt, List.cons.injEq] at hrest
    have hkey : keys[x]? = some key := by rw [List.getElem?_eq_getElem hlt, hrest.1]
    refine (replicaKey_progress hhomes (hlength ▸ hlt) hkey hr h).bind fun rep' d hd => ?_
    exact ih hrest.2 hd (by omega)

/-- The key is sent: a round asks for it on a server that accepts, and every round before meets a server that
refuses and was not met before. -/
def Reached (accepts : Nat → Bool) (place : Nat → Nat → Nat) (number replicas x : Nat) : Prop :=
  ∃ r ≤ replicas, accepts (place x r) = true ∧ ∀ q < r, Fresh accepts place number q

/-- The rounds from `r` on. -/
theorem replicationBinaryMget_progress (hhomes : ∀ home ∈ homes, home < count)
    (hlength : keys.length = homes.length) {rounds : Nat} (hr : r + rounds = replicas + 1) (rep : Replication)
    (h : AskingUpTo K keys count replicas (askedAt count replicas start randomizeRead homes) homes c₀ r 0
      { rep with success := true } c) :
    Ensures (replicationBinaryMget K count replicas start randomizeRead keys rounds rep) c fun _ c' =>
      ∃ asks, Trace (Asks K keys) (fun _ _ => False) c₀ asks c' ∧
        (∀ ask ∈ asks, ask.key < homes.length ∧ ∃ q ≤ replicas,
          ask.server = askedAt count replicas start randomizeRead homes ask.key q) ∧
        ∀ accepts, (∀ ask ∈ asks, ask.taken = accepts ask.server) → ∀ x < homes.length,
          (Reached accepts (askedAt count replicas start randomizeRead homes) homes.length replicas x →
            timesSent asks x = 1) ∧
          (¬Reached accepts (askedAt count replicas start randomizeRead homes) homes.length replicas x →
            timesSent asks x = 0) := by
  induction rounds generalizing r rep c with
  | zero =>
    -- all rounds took place
    obtain rfl : r = replicas + 1 := hr
    obtain ⟨asks, htrace, hasks, hstage⟩ := h.asks
    refine ensures_pure.mpr ⟨asks, htrace, hasks, fun accepts hall x hx => ?_⟩
    obtain ⟨hs, hfresh⟩ := hstage accepts hall
    constructor
    · rintro ⟨q, hq, hacc, -⟩
      exact hs.once x hx ⟨q, .inl (by omega), hacc⟩
    · refine fun hnot => hs.never x ?_
      rintro ⟨q, hq, hacc⟩
      have hq : q < replicas + 1 := by unfold Before at hq; omega
      exact hnot ⟨q, by omega, hacc, fun p hp => hfresh p (by omega)⟩
  | succ rounds ih =>
    have hround : replicas - rounds = r := by omega
    simp only [replicationBinaryMget, hround]
    refine (replicaKeys_progress hhomes hlength (by omega) (drop_zero).symm h (Nat.zero_le _)).bind
      fun rep' d hd => ?_
    refine ensures_ite (fun hsuccess => ?_) fun hsuccess => ?_
    · -- the round met no new server, and is the last one
      obtain ⟨asks, htrace, hasks, hstage⟩ := hd.asks
      refine ensures_pure.mpr ⟨asks, htrace, hasks, fun accepts hall x hx => ?_⟩
      obtain ⟨hs, hfresh⟩ := hstage accepts hall
      have hlast := hs.success_iff.mp hsuccess
      constructor
      · rintro ⟨q, hq, hacc, hbefore⟩
        have hle : q ≤ r := Nat.not_lt.mp fun hlt => hlast (hbefore r hlt)
        exact hs.once x hx ⟨q, by unfold Before; omega, hacc⟩
      · refine fun hnot => hs.never x ?_
        rintro ⟨q, hq, hacc⟩
        have hq : q ≤ r := by unfold Before at hq; omega
        exact hnot ⟨q, by omega, hacc, fun p hp => hfresh p (by omega)⟩
    · have hr' : r + 1 + rounds = replicas + 1 := by omega
      refine ih hr' rep' ⟨hd.connects, hd.hash, ?_⟩
      obtain ⟨asks, htrace, hasks, hstage⟩ := hd.asks
      refine ⟨asks, htrace, hasks, fun accepts hall => ?_⟩
      obtain ⟨hs, hfresh⟩ := hstage accepts hall
      refine ⟨hs.round, fun q hq => ?_⟩
      rcases Nat.lt_succ_iff_lt_or_eq.mp hq with hlt | rfl
      · exact hfresh q hlt
      · exact Classical.not_not.mp (mt hs.success_iff.mpr hsuccess)

theorem AskingUpTo.first (hc : c.Connects count) :
    AskingUpTo K keys count replicas (askedAt count replicas start randomizeRead homes) homes c 0 0
      { hash := homes } c where
  connects := hc
  hash _ := .inr rfl
  asks := ⟨[], .nil c, fun _ hask => absurd hask not_mem_nil, fun _ _ =>
    ⟨.start, fun q hq => absurd hq (Nat.not_lt_zero q)⟩⟩

end Rounds

/-- One of the servers of an item accepts. -/
def Reachable (accepts : Nat → Bool) (count replicas home : Nat) : Prop :=
  ∃ k ∈ placement count replicas home, accepts k = true

/-- A multi-get of replicated items sends the request for each key to one server if it can be reached, and to
none otherwise, just if it can be reached where some round looks and the rounds before do not end the search. -/
theorem replicated_mget_reaches (K : Kernel κ) {count : Nat} (replicas start : Nat) (randomizeRead : Bool)
    (keys : List Bytes) (homes : List Nat) (hlength : keys.length = homes.length)
    (hhomes : ∀ home ∈ homes, home < count) (c : Client κ) (hc : c.Connects count) :
    Ensures (replicationBinaryMget K count replicas start randomizeRead keys (replicas + 1) { hash := homes }) c
      fun _ c' => ∃ asks, Trace (Asks K keys) (fun _ _ => False) c asks c' ∧
        ∀ accepts : Nat → Bool, (∀ ask ∈ asks, ask.taken = accepts ask.server) →
          ((∀ x < homes.length,
              (Reachable accepts count replicas (homes.getD x count) → timesSent asks x = 1) ∧
              (¬Reachable accepts count replicas (homes.getD x count) → timesSent asks x = 0)) ↔
            ∀ x < homes.length, Reachable accepts count replicas (homes.getD x count) ↔
              Reached accepts (askedAt count replicas start randomizeRead homes) homes.length replicas x) := by
  refine (replicationBinaryMget_progress hhomes hlength (Nat.zero_add _) _ (.first hc)).mono fun _ c' h => ?_
  obtain ⟨asks, htrace, -, hasks⟩ := h
  refine ⟨asks, htrace, fun accepts haccepts => forall_congr' fun x => forall_congr' fun hx => ?_⟩
  obtain ⟨honce, hnever⟩ := hasks accepts haccepts x hx
  constructor
  · rintro ⟨hreach, hnot⟩
    refine ⟨fun h => ?_, fun h => ?_⟩
    · by_contra hmiss
      exact absurd (hreach h) (by rw [hnever hmiss]; decide)
    · by_contra hmiss
      exact absurd (hnot hmiss) (by rw [honce h]; decide)
  · intro hiff
    exact ⟨fun h => honce (hiff.mp h), fun h => hnever (mt hiff.mpr h)⟩

/-- A kernel that takes every byte where it can connect, and answers nothing. -/
def gate : Kernel Bool where
  send k out := (.sent out.length, k)
  recv k _ := (.eof, k)
  poll k _ _ := (.ready, k)
  connect _ b k := (if k then none else some .connectionFailure, b, k)
  close k := k
  garbage _ n := List.replicate n 0
  patience _ := 0
  supply _ := 0
  connect_isFatal _ _ k rc h := by
    cases k with
    | false => cases h; rfl
    | true => cases h
  garbage_length _ n := length_replicate
  send_sent _ out n h hne := by
    cases h
    exact ⟨length_pos_iff.mpr hne, Nat.le_refl _⟩
  recv_data _ _ _ h := nomatch h
  recv_supply _ _ _ h := nomatch h
  recv_supply_le _ _ := Nat.le_refl _
  poll_supply _ _ _ := Nat.le_refl _
  send_refused _ _ _ h := nomatch h
  recv_refused _ _ _ h := nomatch h
  send_patience _ _ := Nat.le_refl _
  recv_patience _ _ := Nat.le_refl _
  poll_patience _ _ _ := Nat.le_refl _
  close_patience _ := Nat.le_refl _

/-- A client with one server for each entry, which can be reached or cannot. -/
def gates (reachable : List Bool) : Client Bool where
  memc := { servers := reachable.map fun _ => .ofServer (Memcached.letterHost 'a') }
  conns := reachable.map fun open_ => { net := open_ }

/-- What was sent to each server. -/
def Client.sentTo (c : Client Bool) : List Bytes := c.conns.map fun conn => conn.accepted.map (·.byte)

/-- Two keys of three servers. -/
theorem replicated_mget_reaches_two :
    Ensures (replicationBinaryMget gate 3 2 0 false [[97], [98]] 3 { hash := [0, 1] }) (gates [true, false, true])
      fun _ c' => ∃ asks, Trace (Asks gate [[97], [98]]) (fun _ _ => False) (gates [true, false, true]) asks c' ∧
        ∀ accepts : Nat → Bool, (∀ ask ∈ asks, ask.taken = accepts ask.server) →
          ((∀ x < 2, (Reachable accepts 3 2 ([0, 1].getD x 3) → timesSent asks x = 1) ∧
              (¬Reachable accepts 3 2 ([0, 1].getD x 3) → timesSent asks x = 0)) ↔
            ∀ x < 2, Reachable accepts 3 2 ([0, 1].getD x 3) ↔
              Reached accepts (askedAt 3 2 0 false [0, 1]) 2 2 x) :=
  replicated_mget_reaches gate 2 0 false [[97], [98]] [0, 1] rfl (by decide) (gates [true, false, true])
    ⟨⟨rfl, by decide⟩, rfl, rfl⟩

/-- The third server takes requests and holds replicas of both keys. The first key meets the second server in
the second round, where it is known to refuse; as nothing else fails in that round, it is the last one. With a
random start of one, a key of two servers is never asked for on its own server. -/
theorem replicated_mget_misses :
    2 ∈ placement 3 2 0 ∧
    Ensures (replicationBinaryMget gate 3 2 0 false [[97], [98]] 3 { hash := [0, 1] }) (gates [false, false, true])
      (fun _ c' => c'.sentTo = [[], [], requestHeader .getk 1 1 0 1 0 ++ [98]]) ∧
    0 ∈ placement 2 1 0 ∧
    Ensures (replicationBinaryMget gate 2 1 1 true [[97]] 2 { hash := [0] }) (gates [true, false])
      (fun _ c' => c'.sentTo = [[], []]) :=
  ⟨⟨2, by decide, by decide⟩, by decide +kernel, ⟨0, by decide, by decide⟩, by decide +kernel⟩

/-- While the sums do not wrap around, a key is asked for on its own servers only. The sum with a random start
may wrap around, but then leads to one of them all the same. -/
theorem replicaServer_mem {start : Nat} (hfit : count + replicas < 2 ^ 32) (hhome : home < count)
    (hstart : start ≤ replicas) (hq : q ≤ replicas) (randomizeRead : Bool) :
    replicaServer count replicas start randomizeRead home q ∈ placement count replicas home := by
  have hserver : (home + q) % 2 ^ 32 = home + q := Nat.mod_eq_of_lt (by omega)
  have hlimit : (home + replicas) % 2 ^ 32 = home + replicas := Nat.mod_eq_of_lt (by omega)
  simp only [replicaServer, hserver, hlimit]
  split
  · next hshift =>
    simp only [Bool.and_eq_true, decide_eq_true_eq] at hshift
    by_cases hwrap : home + q + start < 2 ^ 32
    · rw [Nat.mod_eq_of_lt hwrap] at hshift ⊢
      exact ⟨q + start, by omega, by rw [Nat.add_assoc]⟩
    · refine ⟨q + start + count - 2 ^ 32, by omega, ?_⟩
      have hsum : (home + q + start) % 2 ^ 32 = home + q + start - 2 ^ 32 := by
        rw [Nat.mod_eq_sub_mod (by omega), Nat.mod_eq_of_lt (by omega)]
      have hround : home + (q + start + count - 2 ^ 32) = home + q + start - 2 ^ 32 + count := by omega
      rw [hsum, hround, Nat.add_mod_right]
  · exact ⟨q, hq, rfl⟩

/-- The servers a replicated set writes to and those a replicated delete is sent to are those of the item, and
a multi-get asks for it on no others. -/
theorem replica_placement (K : Kernel κ) {count replicas home : Nat} (hhome : home < count)
    (hfit : count + replicas < 2 ^ 32) (c : Client κ) (hc : c.Connects count)
    (hbinary : c.memc.flags.binaryProtocol = true) (hreplicas : c.memc.numberOfReplicas.toNat = replicas) :
    (∀ item flush reply, Ensures (memcachedSendBinary K home item flush reply .set) c fun _ c' =>
      ∃ rc calls, Trace (VdoCall K) (Upkeep K) c ((home, rc) :: calls) c' ∧
        (rc = .success → ∀ k, k ∈ home :: calls.map Prod.fst ↔ k ∈ placement count replicas home)) ∧
    (∀ key reply isBuffering, Ensures (binaryDelete K home key reply isBuffering) c fun _ c' =>
      ∃ calls, Trace (VdoCall K) (Upkeep K) c calls c' ∧
        ∀ k, k ∈ calls.map Prod.fst ↔ k ∈ placement count replicas home) ∧
    ∀ start ≤ replicas, ∀ randomizeRead keys homes, keys.length = homes.length → (∀ home ∈ homes, home < count) →
      Ensures (replicationBinaryMget K count replicas start randomizeRead keys (replicas + 1) { hash := homes }) c
        fun _ c' => ∃ asks, Trace (Asks K keys) (fun _ _ => False) c asks c' ∧
          ∀ ask ∈ asks, homes[ask.key]? = some home → ask.server ∈ placement count replicas home := by
  subst hreplicas
  refine ⟨memcachedSendBinary_placement hhome hc hbinary, binaryDelete_placement hhome hc, ?_⟩
  intro start hstart randomizeRead keys homes hlength hhomes
  refine (replicationBinaryMget_progress hhomes hlength (Nat.zero_add _) _ (.first hc)).mono fun _ c' h => ?_
  obtain ⟨asks, htrace, hasks, -⟩ := h
  refine ⟨asks, htrace, fun ask hask hkey => ?_⟩
  obtain ⟨-, q, hq, hserver⟩ := hasks ask hask
  rw [hserver, askedAt, getD_eq_getElem?_getD, hkey]
  exact replicaServer_mem hfit hhome hstart hq randomizeRead

/-- Two servers, and more replicas than there are others. -/
def doubled : Client Bool where
  memc :=
    { servers := [.ofServer (Memcached.letterHost 'a'), .ofServer (Memcached.letterHost 'b')]
      numberOfReplicas := 2
      flags := { binaryProtocol := true } }
  conns := [{ net := true }, { net := true }]

theorem replica_placement_doubled :
    Ensures (binaryDelete gate 1 [97] true false) doubled fun _ c' =>
      ∃ calls, Trace (VdoCall gate) (Upkeep gate) doubled calls c' ∧
        ∀ k, k ∈ calls.map Prod.fst ↔ k ∈ placement 2 2 1 :=
  (replica_placement gate (by decide : 1 < 2) (by decide : 2 + 2 < 2 ^ 32) doubled ⟨⟨rfl, by decide⟩, rfl, rfl⟩ rfl
    rfl).2.1 [97] true false

end LM
