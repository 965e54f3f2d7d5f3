import LibMemcached.Proof.Calls
import LibMemcached.Proof.LostServers
import LibMemcached.Proof.Placing

/-!
# What a multi-get that reports success has asked for

A run of `memcached_mget` is described by its steps on the servers (`MgetStep`): a key's request was written or
not, the buffers were flushed, a closing line or `NOOP` was written. `mget_asks_all` says when a run that returns
`MEMCACHED_SUCCESS` has written the request of every key to a connection that is still open.
-/

namespace LM

open List

variable {κ : Type} {K : Kernel κ} {t s : St κ} {conn : Conn κ} {key : Bytes}

/-! ## The steps on one server -/

/-- How a multi-get asks for its keys. -/
inductive MgetMode where
  | text (getCommand : Bytes)
  | binary (flush : Bool)
  | replicated

/-- The requests of a server are followed by a closing line or a `NOOP`. -/
def MgetMode.closes : MgetMode → Prop
  | .replicated => False
  | _ => True

/-- The ways through `addKey`: whether the key was written. -/
inductive TextAsk (K : Kernel κ) (getCommand key : Bytes) (s : St κ) : Bool → St κ → Prop where
  | stopped {m m' : Mget} {t : St κ} (h : startGet K getCommand m s = some ((false, m'), t)) :
    TextAsk K getCommand key s false t
  | failed {m m' : Mget} {t u : St κ} (h : startGet K getCommand m s = some ((true, m'), t))
    (hw : memcachedIoWritev K [untagged (ascii " "), untagged t.memc.keyNamespace, untagged key] false t =
      some (false, u)) : TextAsk K getCommand key s false { u with cursorActive := 0 }
  | written {m m' : Mget} {t u : St κ} (h : startGet K getCommand m s = some ((true, m'), t))
    (hw : memcachedIoWritev K [untagged (ascii " "), untagged t.memc.keyNamespace, untagged key] false t =
      some (true, u)) : TextAsk K getCommand key s true u

/-- The request for a key was written to a server, or not. -/
def MgetMode.Asks (K : Kernel κ) (mode : MgetMode) (key : Bytes) (s : St κ) (written : Bool) (t : St κ) : Prop :=
  match mode with
  | .text getCommand => TextAsk K getCommand key s written t
  | .binary flush => ∃ rc rc', binaryAddKey K true flush key rc s = some ((rc', written), t)
  | .replicated => askReplica K key s = some (written, t)

/-- The closing line or the `NOOP` was written to a server, or not. -/
def MgetMode.Closes (K : Kernel κ) (mode : MgetMode) (s : St κ) (written : Bool) (t : St κ) : Prop :=
  s.cursorActive ≠ 0 ∧
  match mode with
  | .text _ => memcachedIoWrite K
      [⟨13, none⟩, ⟨10, some ⟨s.issued, false, openBytes s.copied ++ [13, 10]⟩⟩] true { s with issued := s.issued + 1 } =
        some (written, t)
  | .binary _ => sendNoop K .success s = some (if written then .success else .someErrors, t)
  | .replicated => False

/-- At most one answer is awaited, and then there is a connection. -/
structure Conn.Single (conn : Conn κ) : Prop where
  alone : conn.cursorActive ≤ 1
  live : conn.cursorActive ≠ 0 → conn.valid = true

theorem Resets.single (h : Resets s t) (hs : s.Single) : t.Single :=
  ⟨(h.alone hs.alone).2, h.live hs.alone hs.live⟩

/-- With at most one answer awaited a write that succeeds leaves the connection as it is. -/
theorem Placed.single {cells : List OutByte} (h : Placed s cells true t) (hs : s.Single)
    (hv : s.valid = true) : t.Single ∧ t.valid = true ∧ t.cursorActive = s.cursorActive := by
  have hvalid := h.valid rfl hv (.of_eq (h.alone hs.alone).1)
  exact ⟨h.toResets.single hs, hvalid, h.kept hs.alone hvalid⟩

theorem Conn.Single.of_idle (h : conn.cursorActive = 0) : conn.Single :=
  ⟨h ▸ Nat.zero_le 1, fun hne => absurd h hne⟩

theorem Resets.idle (h : Resets s t) (hs : s.cursorActive = 0) : t.cursorActive = 0 := by
  have hsingle : t.Single := h.single (.of_idle hs)
  by_contra hne
  exact hne ((h.kept (hs ▸ Nat.zero_le 1) (hsingle.live hne)).trans hs)

/-- What asking a server does to a connection on which at most one answer is awaited: one is just if the
request was written. -/
structure AskEffect (s : St κ) (written : Bool) (t : St κ) : Prop where
  single : s.Single → t.Single
  holds : s.Single → written = true → t.valid = true ∧ t.cursorActive ≠ 0
  failed : written = false → t.cursorActive = 0

theorem AskEffect.idle (h : t.cursorActive = 0) : AskEffect s false t :=
  ⟨fun _ => .of_idle h, fun _ h => absurd h (by decide), fun _ => h⟩

theorem AskEffect.awaits (hv : t.valid = true) (h1 : t.cursorActive = 1) : AskEffect s true t :=
  ⟨fun _ => ⟨h1 ▸ Nat.le_refl 1, fun _ => hv⟩, fun _ _ => ⟨hv, h1 ▸ Nat.one_ne_zero⟩, fun h => absurd h (by decide)⟩

theorem memcachedConnect_effect (s : St κ) : Always (memcachedConnect K) s fun rc t =>
    t.cursorActive = s.cursorActive ∧ t.purgeLog = s.purgeLog ∧ (rc.isFailed = false → t.valid = true) := by
  refine .get_bind (.ite (fun hv => .pure ⟨rfl, rfl, fun _ => hv⟩) fun hv => ?_)
  split
  · exact .set_bind (.pure ⟨rfl, rfl, fun _ => rfl⟩)
  · rename_i rc _ net hconnect
    have hfailed : rc.isFailed = true :=
      ReturnT.isFailed_of_isFatal (K.connect_isFatal s.memc s.backoff s.net rc (by rw [hconnect]))
    refine .set_bind (Always.bind (Q := fun _ t => t.cursorActive = s.cursorActive ∧ t.purgeLog = s.purgeLog)
      (.modify ⟨rfl, rfl⟩) fun _ t ht => .pure ⟨ht.1, ht.2, fun h => absurd hfailed (by rw [h]; decide)⟩)

theorem responseIncrement_idle (hs : s.cursorActive = 0) :
    Always (responseIncrement : Act κ Unit) s fun _ t => t.cursorActive = 1 ∧ t.valid = s.valid := by
  refine .modify ⟨?_, rfl⟩
  show (s.cursorActive + 1) % 2 ^ 32 = 1
  rw [hs]
  decide

theorem startGet_effect {getCommand : Bytes} {m : Mget} (s : St κ) :
    Always (startGet K getCommand m) s fun r t => AskEffect s r.1 t := by
  refine .get_bind (.ite (fun hidle => ?_) fun hawaits => ?_)
  · refine (memcachedConnect_effect s).bind fun rc t ⟨hcursor, _, hopen⟩ => ?_
    have ht0 : t.cursorActive = 0 := hcursor.trans hidle
    refine .ite (fun _ => ?_) fun hok => ?_
    · have hset : Always (setError rc) t fun _ u => u.cursorActive = 0 :=
        Always.bind (Q := fun _ u => u.cursorActive = 0) (.modify ht0) fun _ _ hu => .pure hu
      exact hset.bind fun _ u hu => .pure (.idle hu)
    · refine (placed_written.memcachedIoWritev _ _ t).bind fun sent u hu => ?_
      cases sent with
      | true =>
        obtain ⟨-, hv, hc⟩ := hu.single (.of_idle ht0) (hopen (by simpa using hok))
        exact (responseIncrement_idle (hc.trans ht0)).bind fun _ v hv' => .pure (.awaits (hv'.2.trans hv) hv'.1)
      | false => exact .pure (.idle (hu.toResets.idle ht0))
  · exact .pure ⟨id, fun hs _ => ⟨hs.live hawaits, hawaits⟩, fun h => Bool.noConfusion h⟩

theorem TextAsk.effect {getCommand : Bytes} {written : Bool} (h : TextAsk K getCommand key s written t) :
    AskEffect s written t := by
  cases h with
  | stopped h => exact startGet_effect s _ _ h
  | failed h hw => exact .idle rfl
  | written h hw =>
    rename_i u
    have hstart := startGet_effect s _ _ h
    have hplaced := placed_written.memcachedIoWritev _ _ u _ _ hw
    have hall (hs : s.Single) := hplaced.single (hstart.single hs) (hstart.holds hs rfl).1
    refine ⟨fun hs => (hall hs).1, fun hs _ => ⟨(hall hs).2.1, ?_⟩, fun h => absurd h (by decide)⟩
    rw [(hall hs).2.2]
    exact (hstart.holds hs rfl).2

theorem initializeBinaryRequest_single (s : St κ) : Always (initializeBinaryRequest : Act κ UInt32) s fun _ t =>
    t.cursorActive = s.cursorActive ∧ t.valid = s.valid ∧ t.purgeLog = s.purgeLog := by
  refine Always.bind (Q := fun _ t => t.cursorActive = s.cursorActive ∧ t.valid = s.valid ∧ t.purgeLog = s.purgeLog)
    (.modify ⟨rfl, rfl, rfl⟩) fun _ t ht => .get_bind (.pure ht)

theorem writeRequest_placed {quiet : Bool} {vector : List Bytes} {withFlush : Bool} (s : St κ) :
    Always (writeRequest K quiet vector withFlush) s fun sent t =>
      Placed s (command ⟨s.issued, quiet, vector.flatten⟩) sent t := by
  refine .get_bind (.set_bind ((placed_written.memcachedIoWritev _ _ _).mono fun sent t ht => ?_))
  rw [pieces_flatten length_command] at ht
  have hcount : Placed s [] true { s with issued := s.issued + 1 } := .of_stream rfl
  exact hcount.after ht

theorem binaryAddKey_effect {mgetMode flush : Bool} {key : Bytes} {rc : ReturnT} (s : St κ) :
    Always (binaryAddKey K mgetMode flush key rc) s fun r t => AskEffect s r.2 t := by
  have hconnect : Always (if s.cursorActive = 0 then memcachedConnect K else pure rc) s fun rc t =>
      t.cursorActive = s.cursorActive ∧ (s.Single → ¬(s.cursorActive = 0 ∧ rc.isFailed = true) → t.valid = true) := by
    refine .ite (fun hidle => ?_) fun hawaits => .pure ⟨rfl, fun hs _ => hs.live hawaits⟩
    refine (memcachedConnect_effect s).mono fun rc t ht => ⟨ht.1, fun _ hok => ht.2.2 ?_⟩
    rw [← Bool.not_eq_true]
    exact fun hfailed => hok ⟨hidle, hfailed⟩
  refine .get_bind (hconnect.bind fun rc t ⟨hcursor, hopen⟩ => .ite (fun hfailed => ?_) fun hok => ?_)
  · exact .pure (.idle (hcursor.trans hfailed.1))
  refine (initializeBinaryRequest_single t).bind fun requestId u ⟨huc, huv, _⟩ => ?_
  refine (writeRequest_placed u).bind fun sent v hv => ?_
  cases sent with
  | true =>
    have hvalid (hs : s.Single) : v.valid = true := by
      have hu : u.Single := ⟨by rw [huc, hcursor]; exact hs.alone, fun _ => huv.trans (hopen hs hok)⟩
      exact (hv.single hu (huv.trans (hopen hs hok))).2.1
    refine Always.bind (Q := fun _ w => w.cursorActive = 0 ∧ w.valid = v.valid) (.modify ⟨rfl, rfl⟩) fun _ w hw => ?_
    refine (responseIncrement_idle hw.1).bind fun _ x hx => .pure ?_
    have hxv (hs : s.Single) : x.valid = true := hx.2.trans (hw.2.trans (hvalid hs))
    exact ⟨fun hs => (AskEffect.awaits (hxv hs) hx.1).single hs, fun hs => (AskEffect.awaits (hxv hs) hx.1).holds hs,
      fun h => Bool.noConfusion h⟩
  | false => exact Always.bind (Q := fun _ w => w.cursorActive = 0) (.modify rfl) fun _ w hw => .pure (.idle hw)

/-- A server keeps what it awaits, unless its connection is closed. -/
structure CloseEffect (s t : St κ) : Prop where
  single : s.Single → t.Single
  awaits : t.cursorActive ≠ 0 → s.cursorActive ≠ 0
  kept : s.Single → s.cursorActive ≠ 0 → t.valid = true → t.cursorActive ≠ 0

/-- A connection is made if there is none, and then something is written. -/
theorem Resets.closeEffect {u : St κ} (h : Resets t u) (hc : t.cursorActive = s.cursorActive)
    (hs : s.Single → t.Single) : CloseEffect s u where
  single hsingle := h.single (hs hsingle)
  awaits hne hs0 := hne (h.idle (hc.trans hs0))
  kept hsingle hne hv := by rwa [h.kept (hs hsingle).alone hv, hc]

theorem flushBuffer_effect (ret : ReturnT × Bool) (s : St κ) :
    Always (flushBuffer K ret) s fun _ t => CloseEffect s t := by
  have hconnect : Always (if !s.valid then memcachedConnect K else pure ret.1) s fun _ t =>
      t.cursorActive = s.cursorActive ∧ (s.Single → t.Single) := by
    refine .ite (fun hclosed => ?_) fun _ => .pure ⟨rfl, id⟩
    refine (memcachedConnect_effect s).mono fun _ t ht => ⟨ht.1, fun hs => .of_idle ?_⟩
    rw [ht.1]
    by_contra hne
    simp [hs.live hne] at hclosed
  refine .get_bind (.ite (fun _ => .pure (Resets.rfl.closeEffect rfl id)) fun _ => ?_)
  refine hconnect.bind fun rc t ⟨hc, hsingle⟩ => .ite (fun _ => .pure (Resets.rfl.closeEffect hc hsingle)) fun _ => ?_
  refine (placed_written.memcachedIoWrite [] true t).bind fun sent u hu => ?_
  exact .ite (fun _ => .pure (hu.toResets.closeEffect hc hsingle)) fun _ => .pure (hu.toResets.closeEffect hc hsingle)

theorem sendNoop_effect (hs : s.Single) (hawaits : s.cursorActive ≠ 0) :
    Always (sendNoop K .success) s fun rc t =>
      rc = .success → t.Single ∧ t.valid = true ∧ t.cursorActive ≠ 0 := by
  have hv := hs.live hawaits
  refine .get_bind (.ite (fun h0 => absurd h0 hawaits) fun _ => ?_)
  refine (initializeBinaryRequest_single s).bind fun requestId t ⟨htc, htv, _⟩ => ?_
  have ht : t.Single := ⟨htc ▸ hs.alone, fun _ => htv.trans hv⟩
  have hsent : Always (do
      if ← memcachedIoWrite K [] true then writeRequest K false [requestHeader .noop requestId 0 0 0 0] true
      else return false) t fun sent u =>
        sent = true → u.Single ∧ u.valid = true ∧ u.cursorActive = s.cursorActive := by
    refine (placed_written.memcachedIoWrite [] true t).bind fun sent u hu => ?_
    cases sent with
    | true =>
      obtain ⟨hsu, hvu, hcu⟩ := hu.single ht (htv.trans hv)
      refine (writeRequest_placed u).mono fun sent w hw hsent => ?_
      subst hsent
      obtain ⟨hsw, hvw, hcw⟩ := hw.single hsu hvu
      exact ⟨hsw, hvw, hcw.trans (hcu.trans htc)⟩
    | false => exact .pure fun h => Bool.noConfusion h
  refine hsent.bind fun sent u hu => .ite (fun h => .pure fun _ => ?_) fun _ => ?_
  · obtain ⟨hsu, hvu, hcu⟩ := hu h
    exact ⟨hsu, hvu, hcu ▸ hawaits⟩
  · exact .skip fun _ _ => .pure fun h => absurd h (by decide)

/-- A closing line or `NOOP` that was written leaves the connection open. -/
theorem MgetMode.Closes.effect {mode : MgetMode} {written : Bool} (h : mode.Closes K s written t)
    (hs : s.Single) (hw : written = true) : t.Single ∧ t.valid = true ∧ t.cursorActive ≠ 0 := by
  subst hw
  obtain ⟨hawaits, h⟩ := h
  cases mode with
  | text getCommand =>
    have hcount : Placed s [] true { s with issued := s.issued + 1 } := .of_stream rfl
    have hplaced := hcount.after (placed_written.memcachedIoWrite _ _ _ _ _ h)
    obtain ⟨hsingle, hv, hc⟩ := hplaced.single hs (hs.live hawaits)
    exact ⟨hsingle, hv, hc ▸ hawaits⟩
  | binary flush => exact sendNoop_effect hs hawaits _ _ h rfl
  | replicated => exact absurd h id

/-- What asking a replica does to a connection. -/
structure ReplicaEffect (s : St κ) (written : Bool) (t : St κ) : Prop where
  failed : written = false → t.cursorActive = 0 ∧ t.valid = false
  reset : ¬CleanTo s t → t.valid = false ∧ s.cursorActive ≠ 0
  holds : (s.cursorActive ≠ 0 → s.valid = true) → written = true → CleanTo s t → t.valid = true

theorem askReplica_effect (key : Bytes) (s : St κ) :
    Always (askReplica K key) s fun written t => ReplicaEffect s written t := by
  have hconnect : Always (if s.cursorActive = 0 then memcachedConnect K else pure .success) s fun rc t =>
      t.cursorActive = s.cursorActive ∧ t.purgeLog = s.purgeLog ∧
        ((s.cursorActive ≠ 0 → s.valid = true) → rc.isFailed = false → t.valid = true) := by
    refine .ite (fun _ => ?_) fun hawaits => .pure ⟨rfl, rfl, fun hs _ => hs hawaits⟩
    exact (memcachedConnect_effect s).mono fun rc t ht => ⟨ht.1, ht.2.1, fun _ => ht.2.2⟩
  refine .get_bind (hconnect.bind fun rc t ⟨hcursor, hlog, hopen⟩ => .ite (fun hfailed => ?_) fun hok => ?_)
  · have hclose : Always (closeSocket K) t fun _ u => u.cursorActive = 0 ∧ u.valid = false ∧ u.purgeLog = s.purgeLog :=
      .modify ⟨rfl, rfl, hlog⟩
    refine hclose.bind fun _ u hu => .pure ⟨fun _ => ⟨hu.1, hu.2.1⟩, fun hc => ?_, fun _ h => Bool.noConfusion h⟩
    exact absurd (.of_eq hu.2.2) hc
  refine (initializeBinaryRequest_single t).bind fun requestId u ⟨huc, huv, hul⟩ => ?_
  refine (writeRequest_placed u).bind fun sent v hv => ?_
  have hsu : u.purgeLog = s.purgeLog := hul.trans hlog
  have hclean : CleanTo s v ↔ CleanTo u v := by
    unfold CleanTo
    rw [hsu]
  have hreset (hc : ¬CleanTo s v) : v.valid = false ∧ s.cursorActive ≠ 0 := by
    rw [hclean] at hc
    refine ⟨hv.reset hc, fun h0 => hc (.of_eq (hv.alone ?_).1)⟩
    rw [huc, hcursor, h0]
    exact Nat.zero_le 1
  cases sent with
  | true =>
    refine Always.bind (Q := fun _ w => w.valid = v.valid ∧ w.purgeLog = v.purgeLog) (.modify ⟨rfl, rfl⟩) fun _ w hw => ?_
    have hcleanw : CleanTo s w ↔ CleanTo s v := by
      unfold CleanTo
      rw [hw.2]
    refine .pure ⟨fun h => Bool.noConfusion h, fun hc => ?_, fun hs _ hc => ?_⟩
    · rw [hw.1]
      exact hreset fun hcv => hc (hcleanw.mpr hcv)
    · rw [hw.1]
      refine hv.valid rfl (huv.trans (hopen hs ?_)) (hclean.mp (hcleanw.mp hc))
      simpa using hok
  | false =>
    have hclose : Always (closeSocket K) v fun _ w => w.cursorActive = 0 ∧ w.valid = false ∧ w.purgeLog = v.purgeLog :=
      .modify ⟨rfl, rfl, rfl⟩
    refine hclose.bind fun _ w hw => .pure ⟨fun _ => ⟨hw.1, hw.2.1⟩, fun hc => ⟨hw.2.1, ?_⟩, fun _ h => Bool.noConfusion h⟩
    refine (hreset fun hcv => hc ?_).2
    unfold CleanTo at hcv ⊢
    rwa [hw.2.2]

/-! ## The steps of a multi-get -/

/-- A step of a multi-get: key number `x` was asked for on server `k`, the buffers were flushed, or the closing
line or `NOOP` was sent to server `k`. -/
inductive MgetEvent where
  | key (x k : Nat) (written : Bool)
  | flush
  | close (k : Nat) (written : Bool)

/-- A step with the clients before and after it. -/
structure MgetStep (κ : Type) where
  event : MgetEvent
  before : Client κ
  after : Client κ

variable {mode : MgetMode} {keys : List Bytes} {l : MgetStep κ} {steps : List (MgetStep κ)} {c c' d : Client κ} {k x : Nat}

/-- The step happened between `c` and `c'`. -/
def MgetStep.Of (K : Kernel κ) (mode : MgetMode) (keys : List Bytes) (l : MgetStep κ) (c c' : Client κ) : Prop :=
  l.before = c ∧ l.after = c' ∧
  match l.event with
  | .key x k written => ∃ key conn t, keys[x]? = some key ∧ c.conns[k]? = some conn ∧
      mode.Asks K key ⟨conn, c.toShared⟩ written t ∧ c' = c.put k t
  | .flush => ∃ rc, memcachedFlushBuffers K c = some (rc, c')
  | .close k written => ∃ conn t, c.conns[k]? = some conn ∧
      mode.Closes K ⟨conn, c.toShared⟩ written t ∧ c' = c.put k t

/-- An answer is awaited on an open connection of server `k`. -/
def Client.HoldsAt (c : Client κ) (k : Nat) : Prop :=
  ∃ conn, c.conns[k]? = some conn ∧ conn.valid = true ∧ conn.cursorActive ≠ 0

/-- A connection on which an answer was awaited is no longer open. -/
def MgetStep.Loses (l : MgetStep κ) : Prop := ∃ k, l.before.HoldsAt k ∧ ¬l.after.OpenAt k

/-- No purge read an answer with a fatal code in the step. -/
def MgetStep.Clean (l : MgetStep κ) : Prop :=
  ∀ rc ∈ l.after.purgeLog.drop l.before.purgeLog.length, rc.isFatal = false

/-- The request for each key was written to a connection that was open from then on, and its closing line or
`NOOP` was written where there is one. -/
def AskedAll (mode : MgetMode) (number : Nat) (steps : List (MgetStep κ)) : Prop :=
  ∀ x < number, ∃ before l after k, steps = before ++ l :: after ∧ l.event = .key x k true ∧
    (∀ l' ∈ l :: after, l'.after.OpenAt k) ∧ (mode.closes → ∃ l' ∈ after, l'.event = .close k true)

/-- Nothing went wrong while the keys were sent. Where a key can be asked for on several servers: one of them
took it, nothing went wrong on a server that took a key, and no purge met a fatal answer. -/
def Unfailing (mode : MgetMode) (number : Nat) (steps : List (MgetStep κ)) : Prop :=
  match mode with
  | .replicated => (∀ x < number, ∃ l ∈ steps, ∃ k, l.event = .key x k true) ∧
      (∀ before l after x k, steps = before ++ l :: after → l.event = .key x k true →
        ∀ l' ∈ after, ∀ y, l'.event ≠ .key y k false) ∧ ∀ l ∈ steps, l.Clean
  | _ => (∀ l ∈ steps, ∀ x k, l.event ≠ .key x k false) ∧ ∀ l ∈ steps, l.event = .flush → ¬l.Loses

/-- Between the steps no connection is touched. -/
def Aside (c d : Client κ) : Prop := d.conns = c.conns

theorem foldServers_each {α : Type} {f : α → Act κ α} {E : St κ → St κ → Prop}
    (hf : ∀ a s, Always (f a) s fun _ t => E s t) (a : α) {ks : List Nat} (hnodup : ks.Nodup) (c : Client κ) :
    Always (foldServers f ks a) c fun _ c' => c'.conns.length = c.conns.length ∧
      ∀ (k : Nat) conn, c.conns[k]? = some conn → (k ∉ ks → c'.conns[k]? = some conn) ∧
        (k ∈ ks → ∃ s t : St κ, s.toConn = conn ∧ E s t ∧ c'.conns[k]? = some t.toConn) := by
  induction ks generalizing a c with
  | nil => exact .pure ⟨rfl, fun _ _ h => ⟨fun _ => h, fun hmem => absurd hmem not_mem_nil⟩⟩
  | cons j ks ih =>
    obtain ⟨hj, hks⟩ := nodup_cons.mp hnodup
    have hfirst : Always (onServer j (f a)) c fun _ d =>
        ∃ conn t, c.conns[j]? = some conn ∧ E ⟨conn, c.toShared⟩ t ∧ d = c.put j t :=
      onServer_always fun conn hconn => (hf a _).mono fun _ t ht => ⟨conn, t, hconn, ht, rfl⟩
    refine hfirst.bind fun a d ⟨conn, t, hconn, ht, hd⟩ => (ih a hks d).mono fun _ c' ⟨hlength, hc'⟩ => ?_
    subst hd
    refine ⟨hlength.trans length_set, fun k conn' hk => ?_⟩
    by_cases hjk : j = k
    · subst hjk
      obtain rfl : conn = conn' := Option.some.inj (hconn.symm.trans hk)
      have hlast := (hc' j t.toConn (Client.put_self hconn t)).1 hj
      exact ⟨fun hmem => absurd mem_cons_self hmem, fun _ => ⟨_, t, rfl, ht, hlast⟩⟩
    · have hrest := hc' k conn' ((Client.put_other hjk t).trans hk)
      refine ⟨fun hmem => hrest.1 fun h => hmem (mem_cons_of_mem j h), fun hmem => hrest.2 ?_⟩
      exact (mem_cons.mp hmem).resolve_left fun h => hjk h.symm

theorem memcachedFlushBuffers_each (c : Client κ) : Always (memcachedFlushBuffers K) c fun _ c' =>
    ∀ (k : Nat) conn', c'.conns[k]? = some conn' →
      ∃ s t : St κ, c.conns[k]? = some s.toConn ∧ CloseEffect s t ∧ t.toConn = conn' := by
  refine .get_bind ((foldServers_each (fun a s => flushBuffer_effect a s) _ nodup_range c).bind
    fun _ c' ⟨hlength, hc'⟩ => .pure fun k conn' hk' => ?_)
  have hlt : k < c.conns.length := by
    rw [← hlength]
    exact (List.getElem?_eq_some_iff.mp hk').1
  have hk := List.getElem?_eq_getElem hlt
  obtain ⟨hout, hin⟩ := hc' k _ hk
  by_cases hmem : k ∈ List.range c.memc.serverCount
  · obtain ⟨s, t, hs, ht, hkt⟩ := hin hmem
    exact ⟨s, t, hs ▸ hk, ht, Option.some.inj (hkt.symm.trans hk')⟩
  · refine ⟨⟨c.conns[k], c.toShared⟩, ⟨c.conns[k], c.toShared⟩, hk, Resets.rfl.closeEffect rfl id, ?_⟩
    exact Option.some.inj ((hout hmem).symm.trans hk')

/-! ### Servers on which at most one answer is awaited -/

def Client.AllSingle (c : Client κ) : Prop := ∀ (k : Nat) conn, c.conns[k]? = some conn → conn.Single

/-- Nothing went wrong in the step. -/
structure MgetStep.Good (l : MgetStep κ) : Prop where
  key (x k : Nat) : l.event ≠ .key x k false
  close (k : Nat) : l.event ≠ .close k false
  flush : l.event = .flush → ¬l.Loses

theorem MgetMode.Asks.effect (hmode : mode.closes) {written : Bool} (h : mode.Asks K key s written t) :
    AskEffect s written t := by
  cases mode with
  | text getCommand => exact TextAsk.effect h
  | binary flush =>
    obtain ⟨rc, rc', h⟩ := h
    exact binaryAddKey_effect s _ _ h
  | replicated => exact absurd hmode id

theorem Client.AllSingle.put (hc : c.AllSingle) (ht : t.Single) (j : Nat) : (c.put j t).AllSingle := by
  intro k conn hk
  by_cases hjk : j = k
  · subst hjk
    have hlt : j < c.conns.length := by simpa [Client.put] using (List.getElem?_eq_some_iff.mp hk).1
    rw [Client.put_self (List.getElem?_eq_getElem hlt) t] at hk
    exact Option.some.inj hk ▸ ht
  · exact hc k conn ((Client.put_other hjk t).symm.trans hk)

section

variable (h : l.Of K mode keys c c') (hmode : mode.closes)
include h hmode

theorem MgetStep.Of.single (hclose : ∀ k, l.event ≠ .close k false) (hc : c.AllSingle) : c'.AllSingle := by
  obtain ⟨-, -, h⟩ := h
  revert h
  cases hev : l.event with
  | key x j written =>
    rintro ⟨key, conn, t, -, hconn, hask, rfl⟩
    exact hc.put ((hask.effect hmode).single (hc j conn hconn)) j
  | flush =>
    rintro ⟨rc, hrun⟩ k conn' hk'
    obtain ⟨s, t, hs, ht, rfl⟩ := memcachedFlushBuffers_each c _ _ hrun k conn' hk'
    exact ht.single (hc k _ hs)
  | close j written =>
    rintro ⟨conn, t, hconn, hclosed, rfl⟩
    cases written with
    | true => exact hc.put (hclosed.effect (hc j conn hconn) rfl).1 j
    | false => exact absurd hev (hclose j)

theorem MgetStep.Of.written (hev : l.event = .key x k true) (hc : c.AllSingle) : c'.HoldsAt k := by
  obtain ⟨-, -, h⟩ := h
  rw [hev] at h
  obtain ⟨key, conn, t, -, hconn, hask, rfl⟩ := h
  exact ⟨_, Client.put_self hconn t, (hask.effect hmode).holds (hc k conn hconn) rfl⟩

theorem MgetStep.Of.holds (hgood : l.Good) (hc : c.AllSingle) (hk : c.HoldsAt k) : c'.HoldsAt k := by
  have hputs {j : Nat} {conn : Conn κ} {t : St κ} (hconn : c.conns[j]? = some conn)
      (ht : t.valid = true ∧ t.cursorActive ≠ 0) : (c.put j t).HoldsAt k := by
    by_cases hjk : j = k
    · subst hjk
      exact ⟨_, Client.put_self hconn t, ht⟩
    · obtain ⟨conn', hk⟩ := hk
      exact ⟨conn', (Client.put_other hjk t).trans hk.1, hk.2⟩
  obtain ⟨hbefore, hafter, h⟩ := h
  revert h
  cases hev : l.event with
  | key x j written =>
    rintro ⟨key, conn, t, -, hconn, hask, rfl⟩
    cases written with
    | true => exact hputs hconn ((hask.effect hmode).holds (hc j conn hconn) rfl)
    | false => exact absurd hev (hgood.key x j)
  | flush =>
    rintro ⟨rc, hrun⟩
    have hopen : c'.OpenAt k := by
      by_contra hlost
      exact hgood.flush hev ⟨k, by rw [hbefore]; exact hk, by rw [hafter]; exact hlost⟩
    obtain ⟨conn', hk', hv'⟩ := hopen
    obtain ⟨s, t, hs, ht, rfl⟩ := memcachedFlushBuffers_each c _ _ hrun k conn' hk'
    obtain ⟨conn, hconn, -, hcursor⟩ := hk
    obtain rfl : conn = s.toConn := Option.some.inj (hconn.symm.trans hs)
    exact ⟨_, hk', hv', ht.kept (hc k _ hs) hcursor hv'⟩
  | close j written =>
    rintro ⟨conn, t, hconn, hclosed, rfl⟩
    cases written with
    | true => exact hputs hconn (hclosed.effect (hc j conn hconn) rfl).2
    | false => exact absurd hev (hgood.close j)

end

/-! ### Whole runs with one answer awaited on each server -/

/-- The steps of a multi-get from `c` to `c'`. -/
abbrev MgetRun (K : Kernel κ) (mode : MgetMode) (keys : List Bytes) (c : Client κ) (steps : List (MgetStep κ))
    (c' : Client κ) : Prop := Trace (MgetStep.Of K mode keys) Aside c steps c'

/-- The number of the key that a step asked for. -/
def MgetEvent.number : MgetEvent → Option Nat
  | .key x _ _ => some x
  | _ => none

/-- The number of the key whose request a step wrote. -/
def MgetEvent.taken : MgetEvent → Option Nat
  | .key x _ true => some x
  | _ => none

theorem Client.HoldsAt.openAt (h : c.HoldsAt k) : c.OpenAt k :=
  let ⟨conn, hconn, hv, _⟩ := h
  ⟨conn, hconn, hv⟩

section

variable (h : MgetRun K mode keys c steps c') (hmode : mode.closes)
include h hmode

theorem MgetRun.single (hclose : ∀ l ∈ steps, ∀ k, l.event ≠ .close k false) (hc : c.AllSingle) :
    c'.AllSingle := by
  induction h with
  | nil => exact hc
  | silent hsilent _ ih =>
    refine ih hclose ?_
    unfold Client.AllSingle
    rwa [hsilent]
  | step hstep _ ih =>
    obtain ⟨hfirst, hrest⟩ := forall_mem_cons.mp hclose
    exact ih hrest (hstep.single hmode hfirst hc)

theorem MgetRun.holds (hgood : ∀ l ∈ steps, l.Good) (hc : c.AllSingle) (hk : c.HoldsAt k) :
    c'.HoldsAt k ∧ ∀ l ∈ steps, l.after.OpenAt k := by
  induction h with
  | nil => exact ⟨hk, fun _ hl => absurd hl not_mem_nil⟩
  | silent hsilent _ ih =>
    refine ih hgood ?_ ?_
    · unfold Client.AllSingle
      rwa [hsilent]
    · unfold Client.HoldsAt
      rwa [hsilent]
  | step hstep _ ih =>
    obtain ⟨hfirst, hrest⟩ := forall_mem_cons.mp hgood
    have hk' := hstep.holds hmode hfirst hc hk
    obtain ⟨hlast, hopen⟩ := ih hrest (hstep.single hmode hfirst.close hc) hk'
    refine ⟨hlast, forall_mem_cons.mpr ⟨?_, hopen⟩⟩
    rw [hstep.2.1]
    exact hk'.openAt

end

/-- An answer is awaited on server `k`. -/
def Client.AwaitsAt (c : Client κ) (k : Nat) : Prop := ∃ conn, c.conns[k]? = some conn ∧ conn.cursorActive ≠ 0

theorem MgetMode.Asks.failed (h : mode.Asks K key s false t) : t.cursorActive = 0 := by
  cases mode with
  | text getCommand => exact (TextAsk.effect h).failed rfl
  | binary flush =>
    obtain ⟨rc, rc', h⟩ := h
    exact (binaryAddKey_effect s _ _ h).failed rfl
  | replicated => exact ((askReplica_effect key s _ _ h).failed rfl).1

theorem Client.AwaitsAt.of_put {j : Nat} (hconn : c.conns[j]? = some conn) (hk : (c.put j t).AwaitsAt k) :
    j = k ∧ t.cursorActive ≠ 0 ∨ c.AwaitsAt k := by
  obtain ⟨conn', hk', hne⟩ := hk
  by_cases hjk : j = k
  · subst hjk
    rw [Client.put_self hconn t] at hk'
    exact .inl ⟨rfl, Option.some.inj hk' ▸ hne⟩
  · exact .inr ⟨conn', (Client.put_other hjk t).symm.trans hk', hne⟩

theorem MgetStep.Of.awaits (h : l.Of K mode keys c c') (hk : c'.AwaitsAt k) :
    c.AwaitsAt k ∨ ∃ x, l.event = .key x k true := by
  obtain ⟨-, -, h⟩ := h
  revert h
  cases hev : l.event with
  | key x j written =>
    rintro ⟨key, conn, t, -, hconn, hask, rfl⟩
    rcases Client.AwaitsAt.of_put hconn hk with ⟨rfl, hne⟩ | hk
    · cases written with
      | true => exact .inr ⟨x, rfl⟩
      | false => exact absurd hask.failed hne
    · exact .inl hk
  | flush =>
    rintro ⟨rc, hrun⟩
    obtain ⟨conn', hk', hne⟩ := hk
    obtain ⟨s, t, hs, ht, rfl⟩ := memcachedFlushBuffers_each c _ _ hrun k conn' hk'
    exact .inl ⟨_, hs, ht.awaits hne⟩
  | close j written =>
    rintro ⟨conn, t, hconn, hclosed, rfl⟩
    rcases Client.AwaitsAt.of_put hconn hk with ⟨rfl, -⟩ | hk
    · exact .inl ⟨conn, hconn, hclosed.1⟩
    · exact .inl hk

theorem MgetRun.awaits (h : MgetRun K mode keys c steps c') (hk : c'.AwaitsAt k) :
    c.AwaitsAt k ∨ ∃ l ∈ steps, ∃ x, l.event = .key x k true := by
  induction h with
  | nil => exact .inl hk
  | silent hsilent _ ih =>
    refine (ih hk).imp (fun hc => ?_) id
    unfold Client.AwaitsAt at hc ⊢
    rwa [hsilent] at hc
  | step hstep _ ih =>
    rcases ih hk with hc | ⟨l', hl', hx⟩
    · exact (hstep.awaits hc).imp id fun ⟨x, hx⟩ => ⟨_, mem_cons_self, x, hx⟩
    · exact .inr ⟨l', mem_cons_of_mem _ hl', hx⟩

/-- No answer is awaited. -/
def Client.AllIdle (c : Client κ) : Prop := ∀ (k : Nat) conn, c.conns[k]? = some conn → conn.cursorActive = 0

theorem Client.AllIdle.single (h : c.AllIdle) : c.AllSingle := fun k conn hconn => .of_idle (h k conn hconn)

theorem Client.AllIdle.not_awaitsAt (h : c.AllIdle) : ¬c.AwaitsAt k := fun ⟨conn, hconn, hne⟩ => hne (h k conn hconn)

/-- The request for a key is written at most once. -/
def WrittenOnce (steps : List (MgetStep κ)) : Prop := (steps.filterMap fun l => l.event.taken).Nodup

/-- The connection to which a key's request was written was open from then on. -/
theorem AskedAll.elim {number : Nat} (h : AskedAll mode number steps) (honce : WrittenOnce steps)
    {before after : List (MgetStep κ)} (hx : x < number) (hsteps : steps = before ++ l :: after)
    (hev : l.event = .key x k true) : ∀ l' ∈ l :: after, l'.after.OpenAt k := by
  obtain ⟨before', l', after', k', hsteps', hev', hopen, -⟩ := h x hx
  obtain ⟨rfl, rfl⟩ := cut_unique (hsteps ▸ honce) (hsteps.symm.trans hsteps') (by rw [hev]; rfl) (by rw [hev']; rfl)
  rw [hev] at hev'
  cases hev'
  exact hopen

/-- The steps of a run have the numbers of the keys, each once. -/
structure Numbered (number : Nat) (steps : List (MgetStep κ)) : Prop where
  nodup : (steps.filterMap fun l => l.event.number).Nodup
  mem (x : Nat) : x ∈ (steps.filterMap fun l => l.event.number) ↔ x < number

theorem filterMap_taken (steps : List (MgetStep κ)) :
    (steps.filterMap fun l => l.event.taken).Sublist (steps.filterMap fun l => l.event.number) := by
  induction steps with
  | nil => exact .refl _
  | cons l steps ih =>
    rw [filterMap_cons, filterMap_cons]
    cases l.event with
    | key x k written =>
      cases written with
      | true => exact ih.cons_cons x
      | false => exact ih.cons x
    | flush => exact ih
    | close k written => exact ih

theorem Numbered.writtenOnce {number : Nat} (h : Numbered number steps) : WrittenOnce steps :=
  h.nodup.sublist (filterMap_taken steps)

theorem Numbered.lt {number : Nat} (h : Numbered number steps) {written : Bool} (hl : l ∈ steps)
    (hev : l.event = .key x k written) : x < number := by
  rw [← h.mem, mem_filterMap]
  exact ⟨l, hl, by rw [hev]; rfl⟩

/-- The first half: if every request was written to a connection that stays open, nothing went wrong. -/
theorem AskedAll.unfailing {number : Nat} (h : AskedAll mode number steps) (hmode : mode.closes)
    (hrun : MgetRun K mode keys c steps c') (hidle : c.AllIdle) (hnum : Numbered number steps) :
    Unfailing mode number steps := by
  have hkeys : ∀ l ∈ steps, ∀ x k, l.event ≠ .key x k false := by
    intro l hl x k hev
    obtain ⟨before, after, hsteps⟩ := append_of_mem hl
    obtain ⟨before', l', after', k', hsteps', hev', -⟩ := h x (hnum.lt hl hev)
    obtain ⟨rfl, -⟩ := cut_unique (hsteps ▸ hnum.nodup) (hsteps.symm.trans hsteps') (by rw [hev]; rfl) (by rw [hev']; rfl)
    rw [hev] at hev'
    cases hev'
  have hflush : ∀ l ∈ steps, l.event = .flush → ¬l.Loses := by
    rintro l hl hev ⟨k, ⟨conn, hconn, -, hcursor⟩, hlost⟩
    obtain ⟨before, after, hsteps⟩ := append_of_mem hl
    obtain ⟨d, hbefore, hrest⟩ := Trace.cut (hsteps ▸ hrun)
    obtain ⟨e, e', hsilent, hstep, -⟩ := hrest.first
    have hawaits : e.AwaitsAt k := ⟨conn, by rw [← hstep.1]; exact hconn, hcursor⟩
    have hrun' : MgetRun K mode keys c before e := by simpa using hbefore.append hsilent
    rcases hrun'.awaits hawaits with hc | ⟨l', hl', x, hev'⟩
    · exact hidle.not_awaitsAt hc
    · obtain ⟨before', after', rfl⟩ := append_of_mem hl'
      have hsteps' : steps = before' ++ l' :: (after' ++ l :: after) := by rw [hsteps]; simp
      have hmem : l' ∈ steps := by rw [hsteps']; simp
      exact hlost (h.elim hnum.writtenOnce (hnum.lt hmem hev') hsteps' hev' l (by simp))
  cases mode with
  | text getCommand => exact ⟨hkeys, hflush⟩
  | binary flush => exact ⟨hkeys, hflush⟩
  | replicated => exact absurd hmode id

/-- The second half, for the two parts of a run: keys are asked for, and then the requests are closed. -/
theorem Unfailing.askedAll {number : Nat} {sends closes : List (MgetStep κ)} {c₁ : Client κ}
    (h : Unfailing mode number (sends ++ closes)) (hmode : mode.closes) (hsends : MgetRun K mode keys c sends c₁)
    (hcloses : MgetRun K mode keys c₁ closes c') (hidle : c.AllIdle) (hnum : Numbered number (sends ++ closes))
    (hclose : ∀ l ∈ sends ++ closes, ∀ k, l.event ≠ .close k false) (hnokey : ∀ l ∈ closes, l.event.number = none)
    (hall : ∀ k, c₁.HoldsAt k → ∃ l ∈ closes, l.event = .close k true) :
    AskedAll mode number (sends ++ closes) := by
  have hgood : ∀ l ∈ sends ++ closes, l.Good := by
    have hboth : (∀ l ∈ sends ++ closes, ∀ x k, l.event ≠ .key x k false) ∧
        ∀ l ∈ sends ++ closes, l.event = .flush → ¬l.Loses := by
      cases mode with
      | text getCommand => exact h
      | binary flush => exact h
      | replicated => exact absurd hmode id
    exact fun l hl => ⟨hboth.1 l hl, hclose l hl, hboth.2 l hl⟩
  intro x hx
  obtain ⟨l, hl, hnumber⟩ := mem_filterMap.mp ((hnum.mem x).mpr hx)
  obtain ⟨k, written, hev⟩ : ∃ k written, l.event = .key x k written := by
    revert hnumber
    cases l.event with
    | key y k written =>
      rintro ⟨⟩
      exact ⟨k, written, rfl⟩
    | flush => rintro ⟨⟩
    | close k written => rintro ⟨⟩
  obtain rfl : written = true := by
    cases written with
    | true => rfl
    | false => exact absurd hev ((hgood l hl).key x k)
  have hsent : l ∈ sends := by
    refine (mem_append.mp hl).resolve_right fun hc => ?_
    rw [hnokey l hc] at hnumber
    cases hnumber
  obtain ⟨before, after, rfl⟩ := append_of_mem hsent
  -- the run up to the request, the request, and what follows it
  obtain ⟨d, hbefore, hrest⟩ := Trace.cut hsends
  obtain ⟨e, e', hsilent, hstep, hafter⟩ := hrest.first
  have hsingle : e.AllSingle := MgetRun.single (hbefore.append hsilent) hmode
    (fun l' hl' => hclose l' (by simp only [append_nil] at hl'; simp [hl'])) hidle.single
  have hsingle' := hstep.single hmode (hclose l (by simp)) hsingle
  obtain ⟨hholds, hopen⟩ := MgetRun.holds hafter hmode (fun l' hl' => hgood l' (by simp [hl'])) hsingle'
    (hstep.written hmode hev hsingle)
  have hsingle₁ := MgetRun.single hafter hmode (fun l' hl' => hclose l' (by simp [hl'])) hsingle'
  obtain ⟨-, hopen'⟩ := hcloses.holds hmode (fun l' hl' => hgood l' (by simp [hl'])) hsingle₁ hholds
  obtain ⟨l', hl', hev'⟩ := hall k hholds
  refine ⟨before, l, after ++ closes, k, by simp, hev, ?_, fun _ => ⟨l', by simp [hl'], hev'⟩⟩
  refine forall_mem_cons.mpr ⟨?_, forall_mem_append.mpr ⟨hopen, hopen'⟩⟩
  rw [hstep.2.1]
  exact (hstep.written hmode hev hsingle).openAt

/-! ### Runs that ask replicas -/

/-- Where an answer is awaited there is a connection. -/
def Client.AllLive (c : Client κ) : Prop :=
  ∀ (k : Nat) conn, c.conns[k]? = some conn → conn.cursorActive ≠ 0 → conn.valid = true

theorem Client.AllIdle.live (h : c.AllIdle) : c.AllLive := fun k conn hconn hne => absurd (h k conn hconn) hne

theorem MgetStep.Of.replica {written : Bool} (h : l.Of K .replicated keys c c') (hev : l.event = .key x k written) :
    ∃ conn t, c.conns[k]? = some conn ∧ ReplicaEffect ⟨conn, c.toShared⟩ written t ∧ c' = c.put k t ∧
      (l.Clean ↔ CleanTo ⟨conn, c.toShared⟩ t) := by
  obtain ⟨hbefore, hafter, h⟩ := h
  rw [hev] at h
  obtain ⟨key, conn, t, -, hconn, hask, hput⟩ := h
  refine ⟨conn, t, hconn, askReplica_effect key _ _ _ hask, hput, ?_⟩
  unfold MgetStep.Clean
  rw [hbefore, hafter, hput]
  rfl

theorem Client.openAt_put (hconn : c.conns[k]? = some conn) : (c.put k t).OpenAt k ↔ t.valid = true := by
  unfold Client.OpenAt
  rw [Client.put_self hconn t]
  simp

theorem MgetStep.Of.not_openAt (h : l.Of K .replicated keys c c') {written : Bool} (hev : l.event = .key x k written)
    (hfail : written = false ∨ ¬l.Clean) : ¬l.after.OpenAt k := by
  obtain ⟨conn, t, hconn, heffect, hput, hclean⟩ := h.replica hev
  have hv : t.valid = false := by
    rcases hfail with hw | hc
    · exact (heffect.failed hw).2
    · exact (heffect.reset (hclean.not.mp hc)).1
  rw [h.2.1, hput, Client.openAt_put hconn, hv]
  decide

theorem MgetStep.Of.live (h : l.Of K .replicated keys c c') {written : Bool} (hev : l.event = .key x k written)
    (hclean : l.Clean) (hc : c.AllLive) : c'.AllLive ∧ (written = true → c'.OpenAt k) := by
  obtain ⟨conn, t, hconn, heffect, hput, hto⟩ := h.replica hev
  have hopen (hw : written = true) : t.valid = true := heffect.holds (hc k conn hconn) hw (hto.mp hclean)
  subst hput
  refine ⟨fun j conn' hj hne => ?_, fun hw => (Client.openAt_put hconn).mpr (hopen hw)⟩
  by_cases hkj : k = j
  · subst hkj
    rw [Client.put_self hconn t] at hj
    rw [← Option.some.inj hj] at hne ⊢
    cases written with
    | true => exact hopen rfl
    | false => exact absurd (heffect.failed rfl).1 hne
  · exact hc j conn' ((Client.put_other hkj t).symm.trans hj) hne

/-- Every step asks for one of the keys. -/
def OnlyKeys (number : Nat) (steps : List (MgetStep κ)) : Prop :=
  ∀ l ∈ steps, ∃ x k written, l.event = .key x k written ∧ x < number

/-- A connection stays open while no purge meets a fatal answer and no request to its server fails. -/
theorem MgetRun.stays_open {number : Nat} (h : MgetRun K .replicated keys c steps c') (honly : OnlyKeys number steps)
    (hclean : ∀ l ∈ steps, l.Clean) (hok : ∀ l ∈ steps, ∀ y, l.event ≠ .key y k false) (hc : c.AllLive)
    (hk : c.OpenAt k) : ∀ l ∈ steps, l.after.OpenAt k := by
  induction h with
  | nil => exact fun _ hl => absurd hl not_mem_nil
  | silent hsilent _ ih =>
    refine ih honly hclean hok ?_ ?_
    · unfold Client.AllLive
      rwa [hsilent]
    · unfold Client.OpenAt
      rwa [hsilent]
  | @step c d _ l _ hstep _ ih =>
    obtain ⟨⟨x, j, written, hev, -⟩, honly'⟩ := forall_mem_cons.mp honly
    obtain ⟨hcl, hclean'⟩ := forall_mem_cons.mp hclean
    obtain ⟨hokl, hok'⟩ := forall_mem_cons.mp hok
    obtain ⟨hlive, hopen⟩ := hstep.live hev hcl hc
    have hd : d.OpenAt k := by
      by_cases hjk : j = k
      · subst hjk
        cases written with
        | true => exact hopen rfl
        | false => exact absurd hev (hokl x)
      · obtain ⟨conn, t, -, -, rfl, -⟩ := hstep.replica hev
        obtain ⟨conn', hk', hv⟩ := hk
        exact ⟨conn', (Client.put_other hjk t).trans hk', hv⟩
    refine forall_mem_cons.mpr ⟨?_, ih honly' hclean' hok' hlive hd⟩
    rw [hstep.2.1]
    exact hd

theorem MgetRun.live {number : Nat} (h : MgetRun K .replicated keys c steps c') (honly : OnlyKeys number steps)
    (hclean : ∀ l ∈ steps, l.Clean) (hc : c.AllLive) : c'.AllLive := by
  induction h with
  | nil => exact hc
  | silent hsilent _ ih =>
    refine ih honly hclean ?_
    unfold Client.AllLive
    rwa [hsilent]
  | step hstep _ ih =>
    obtain ⟨⟨x, j, written, hev, -⟩, honly'⟩ := forall_mem_cons.mp honly
    obtain ⟨hcl, hclean'⟩ := forall_mem_cons.mp hclean
    exact ih honly' hclean' (hstep.live hev hcl hc).1

/-- The request of every key is on an open connection just if nothing went wrong on a server that took one. -/
theorem askedAll_replicated_iff {number : Nat} (hrun : MgetRun K .replicated keys c steps c') (hidle : c.AllIdle)
    (honly : OnlyKeys number steps) (honce : WrittenOnce steps) :
    AskedAll .replicated number steps ↔ Unfailing .replicated number steps := by
  -- a step, with what comes before and after it
  have at_ {before after : List (MgetStep κ)} {l : MgetStep κ} (hsteps : steps = before ++ l :: after) :
      ∃ d d', MgetRun K .replicated keys c before d ∧ l.Of K .replicated keys d d' ∧
        MgetRun K .replicated keys d' after c' := by
    obtain ⟨d, hbefore, hrest⟩ := Trace.cut (hsteps ▸ hrun)
    obtain ⟨e, e', hsilent, hstep, hafter⟩ := hrest.first
    exact ⟨e, e', by simpa using hbefore.append hsilent, hstep, hafter⟩
  constructor
  · intro h
    -- the server that took a request is open from then on
    have hopen {before after : List (MgetStep κ)} {l : MgetStep κ} {x k : Nat} (hsteps : steps = before ++ l :: after)
        (hev : l.event = .key x k true) : ∀ l' ∈ after, l'.after.OpenAt k := by
      obtain ⟨x', k', written, hev', hx⟩ := honly l (by rw [hsteps]; simp)
      rw [hev] at hev'
      cases hev'
      exact fun l' hl' => h.elim honce hx hsteps hev l' (mem_cons_of_mem l hl')
    refine ⟨fun x hx => ?_, fun before l after x k hsteps hev l' hl' y hev' => ?_, fun l hl => ?_⟩
    · obtain ⟨before, l, after, k, hsteps, hev, -⟩ := h x hx
      exact ⟨l, hsteps ▸ by simp, k, hev⟩
    · obtain ⟨between, after', rfl⟩ := append_of_mem hl'
      obtain ⟨d, d', -, hstep, -⟩ := at_ (hsteps.trans (by simp : _ = (before ++ l :: between) ++ l' :: after'))
      exact hstep.not_openAt hev' (.inl rfl) (hopen hsteps hev l' hl')
    · by_contra hclean
      obtain ⟨y, k, written, hev, -⟩ := honly l hl
      obtain ⟨before, after, hsteps⟩ := append_of_mem hl
      obtain ⟨d, d', hbefore, hstep, -⟩ := at_ hsteps
      obtain ⟨conn, t, hconn, heffect, -, hto⟩ := hstep.replica hev
      rcases hbefore.awaits ⟨conn, hconn, (heffect.reset (hto.not.mp hclean)).2⟩ with hc | ⟨l', hl', x, hev'⟩
      · exact hidle.not_awaitsAt hc
      · obtain ⟨before', between, rfl⟩ := append_of_mem hl'
        exact hstep.not_openAt hev (.inr hclean)
          (hopen (hsteps.trans (by simp : _ = before' ++ l' :: (between ++ l :: after))) hev' l (by simp))
  · rintro ⟨htaken, hok, hclean⟩ x hx
    obtain ⟨l, hl, k, hev⟩ := htaken x hx
    obtain ⟨before, after, hsteps⟩ := append_of_mem hl
    obtain ⟨d, d', hbefore, hstep, hafter⟩ := at_ hsteps
    have hlive : d.AllLive := hbefore.live (fun l' hl' => honly l' (by rw [hsteps]; simp [hl']))
      (fun l' hl' => hclean l' (by rw [hsteps]; simp [hl'])) hidle.live
    obtain ⟨hlive', hopen⟩ := hstep.live hev (hclean l hl) hlive
    refine ⟨before, l, after, k, hsteps, hev, forall_mem_cons.mpr ⟨?_, ?_⟩, fun h => absurd h id⟩
    · rw [hstep.2.1]
      exact hopen rfl
    · exact hafter.stays_open (fun l' hl' => honly l' (by rw [hsteps]; simp [hl']))
        (fun l' hl' => hclean l' (by rw [hsteps]; simp [hl'])) (fun l' hl' => hok before l after x k hsteps hev l' hl')
        hlive' (hopen rfl)

end LM
