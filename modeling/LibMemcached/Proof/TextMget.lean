import LibMemcached.Proof.Delivery
import LibMemcached.Proof.Multiget

/-!
# The commands of a multi-get in the text protocol

Where connecting and sending succeed and nothing is outstanding, `memcached_mget_by_key` sends each server one
`get` (or `gets`) with the keys that are routed to it, in their order, and nothing to the others
(`text_mget_sends`). The induction is over the keys: after each of them a connection has the command for
the keys that were routed to its server so far (`Conn.Asking`).
-/

namespace LM

open List Memcached

variable {κ : Type} {K : Kernel κ} {G : κ → Prop} {memc : Memcached} {keys : List Bytes} {c : Client κ}
  {s : St κ} {c₀ : Conn κ} {x : Nat} {master : Option Nat} {k : Nat} {key : Bytes}

/-- The bytes that were sent on the connection, if it is one. -/
def Conn.sentBytes (c : Conn κ) : Bytes := if c.valid then c.accepted.map (·.byte) else []

/-- Nothing is outstanding on the connection. -/
structure Conn.Quiet (G : κ → Prop) (c : Conn κ) : Prop where
  cursorActive : c.cursorActive = 0
  writeBuffer : c.writeBuffer = []
  net : G c.net

/-- The command for `keys` was written but for its end, to a connection that was `c₀` before; if there are
none, nothing was done. -/
def Conn.Asking (G : κ → Prop) (memc : Memcached) (c₀ : Conn κ) (keys : List Bytes) (c : Conn κ) : Prop :=
  if keys = [] then c = c₀
  else c.valid = true ∧ G c.net ∧ c.cursorActive = 1 ∧ c.writeBuffer.length ≤ maxBuffer ∧
    c.readBuffer = c₀.readBuffer ∧ c.copied ≠ [] ∧ c.outgoing.map (·.byte) = c₀.sentBytes ++ memc.getText keys

/-- The command for `keys`; none if there are none. -/
def Memcached.getLine (memc : Memcached) (keys : List Bytes) : Bytes :=
  if keys = [] then [] else memc.getText keys ++ [13, 10]

/-- `bytes` were sent on a connection that was `c₀` before, and the answer is awaited; if there are none,
nothing was done. -/
def Conn.Sent (c₀ : Conn κ) (bytes : Bytes) (c : Conn κ) : Prop :=
  if bytes = [] then c = c₀
  else c.valid = true ∧ c.cursorActive = 1 ∧ c.writeBuffer = [] ∧ c.sentBytes = c₀.sentBytes ++ bytes

/-- In the queue of a connection that was `c₀` before there are `bytes`, which were sent, and nothing was read. -/
def Conn.SentOn (c₀ : Conn κ) (bytes : Bytes) (c : Conn κ) : Prop :=
  c₀.Sent bytes c ∧ c.readBuffer = c₀.readBuffer ∧ (bytes ≠ [] → c.copied ≠ [])

theorem map_byte_untagged (bytes : Bytes) : (untagged bytes).map (·.byte) = bytes := by
  simp [untagged, Function.comp_def]

/-! ## One connection -/

theorem memcachedConnect_quiet (hK : TakesAll K G) (hs : s.toConn.Quiet G) :
    Ensures (memcachedConnect K) s fun rc t => rc = .success ∧ t.toShared = s.toShared ∧ t.valid = true ∧
      t.toConn.Quiet G ∧ t.readBuffer = s.readBuffer ∧ t.outgoing.map (·.byte) = s.sentBytes := by
  simp only [memcachedConnect, ensures_bind, ensures_get]
  refine ensures_ite (fun hv => ensures_pure.mpr ⟨rfl, rfl, hv, hs, rfl, ?_⟩) fun hv => ?_
  · rw [Conn.outgoing, hs.writeBuffer, append_nil, Conn.sentBytes, if_pos hv]
  · obtain ⟨_, k, hconnect, hk⟩ := hK.connect s.memc s.backoff s.net hs.net
    simp only [hconnect, ensures_bind, ensures_set]
    refine ensures_pure.mpr ⟨rfl, rfl, rfl, ⟨hs.cursorActive, hs.writeBuffer, hk⟩, rfl, ?_⟩
    rw [Conn.sentBytes, if_neg hv]
    simp [Conn.outgoing, hs.writeBuffer]

/-- A connection that writes without reading. -/
theorem Conn.alone (hv : s.valid = true) (hn : G s.net) (hp : s.isPurging = false) (hc : s.cursorActive ≤ 1)
    (hroom : s.writeBuffer.length ≤ maxBuffer) : Alone (fun s => s.valid = true ∧ G s.net) s :=
  ⟨⟨hv, hn⟩, hp, hc, hroom⟩

section

variable (hK : TakesAll K G) (hc₀ : c₀.Quiet G)
include hK hc₀

theorem startGet_asking (hp : s.isPurging = false) (hs : Conn.Asking G s.memc c₀ keys s.toConn)
    (m : Mget) :
    Ensures (startGet K (ascii (if s.memc.flags.supportCas then "gets" else "get")) m) s fun r t =>
      r.1 = true ∧ r.2.failuresOccuredInSending = m.failuresOccuredInSending ∧
        m.hostsConnected ≤ r.2.hostsConnected ∧ (keys = [] → 0 < r.2.hostsConnected) ∧
        t.toShared = s.toShared ∧ t.valid = true ∧ G t.net ∧ t.cursorActive = 1 ∧
        t.writeBuffer.length ≤ maxBuffer ∧ t.readBuffer = c₀.readBuffer ∧ t.copied ≠ [] ∧
        t.outgoing.map (·.byte) = c₀.sentBytes ++ s.memc.getText keys := by
  simp only [startGet, ensures_bind, ensures_get]
  unfold Conn.Asking at hs
  split at hs
  · rename_i hkeys
    subst hkeys
    have hquiet : s.toConn.Quiet G := hs ▸ hc₀
    rw [if_pos hquiet.cursorActive]
    refine (memcachedConnect_quiet hK hquiet).bind fun rc t ht => ?_
    obtain ⟨rfl, hshared, hv, ht, hread, hout⟩ := ht
    have hpt : t.isPurging = false := (congrArg Shared.isPurging hshared).trans hp
    have halone := Conn.alone hv ht.net hpt (by rw [ht.cursorActive]; decide)
      (by rw [ht.writeBuffer]; exact Nat.zero_le _)
    simp only [ReturnT.isFailed, Bool.false_eq_true, if_false]
    refine (hK.writer.memcachedIoWritev _ false halone).bind fun ok u hu => ?_
    obtain ⟨rfl, hput, halone, -⟩ := hu
    simp only [if_true, ensures_bind, responseIncrement, ensures_modify]
    refine ensures_pure.mpr ⟨rfl, rfl, Nat.le_succ _, fun _ => Nat.succ_pos _, hput.shared.trans hshared,
      hput.valid, hput.net, ?_, halone.room, hput.readBuffer.trans (hread.trans (congrArg _ hs)), ?_, ?_⟩
    · show (u.cursorActive + 1) % 2 ^ 32 = 1
      rw [hput.cursorActive, ht.cursorActive]
      rfl
    · show u.copied ≠ []
      rw [hput.copied]
      refine append_ne_nil_of_right_ne_nil _ ?_
      split <;> decide
    · show u.outgoing.map _ = _
      rw [hput.outgoing, map_append, hout, hs]
      simp [map_byte_untagged, getText]
  · obtain ⟨hv, hn, hone, hroom, hread, hcopied, hout⟩ := hs
    rw [if_neg (by omega)]
    exact ensures_pure.mpr
      ⟨rfl, rfl, Nat.le_refl _, fun h => absurd h ‹_›, rfl, hv, hn, hone, hroom, hread, hcopied, hout⟩

theorem addKey_asking (key : Bytes) (m : Mget) :
    ActsOn memc (Conn.Asking G memc c₀ keys) (Conn.Asking G memc c₀ (keys ++ [key]))
      (fun m' : Mget => m'.failuresOccuredInSending = m.failuresOccuredInSending ∧
        m.hostsConnected ≤ m'.hostsConnected ∧ (keys = [] → 0 < m'.hostsConnected))
      (addKey K (ascii (if memc.flags.supportCas then "gets" else "get")) key m) := by
  rintro s rfl hp hs
  simp only [addKey, ensures_bind]
  refine (startGet_asking hK hc₀ hp hs m).mono fun r t ht => ?_
  obtain ⟨hr, hfailures, hle, hpos, hshared, hv, hn, hone, hroom, hread, hcopied, hout⟩ := ht
  have hmemc : t.memc = s.memc := congrArg Shared.memc hshared
  have hpt : t.isPurging = false := (congrArg Shared.isPurging hshared).trans hp
  simp only [hr, if_true, ensures_bind, ensures_get]
  refine (hK.writer.memcachedIoWritev _ false
    (Conn.alone hv hn hpt (Nat.le_of_eq hone) hroom)).mono fun ok u hu => ?_
  obtain ⟨rfl, hput, halone, -⟩ := hu
  rw [if_pos rfl]
  refine ensures_pure.mpr ⟨(congrArg Shared.memc hput.shared).trans hmemc,
    (congrArg Shared.isPurging hput.shared).trans hpt, ?_, hfailures, hle, hpos⟩
  rw [Conn.Asking, if_neg (by simp)]
  refine ⟨hput.valid, hput.net, hput.cursorActive.trans hone, halone.room, hput.readBuffer.trans hread, ?_, ?_⟩
  · rw [hput.copied]
    exact append_ne_nil_of_left_ne_nil hcopied _
  rw [hput.outgoing, map_append, hout, hmemc, getText_append]
  simp [map_byte_untagged]

theorem endGet_asking (done : Bool × Bool) :
    ActsOn memc (Conn.Asking G memc c₀ keys) (Conn.SentOn c₀ (memc.getLine keys))
      (fun done' => done' = (done.1 || !keys.isEmpty, done.2)) (endGet K done) := by
  rintro s rfl hp hs
  simp only [endGet, ensures_bind, ensures_get]
  unfold Conn.Asking at hs
  split at hs
  · rename_i hkeys
    have hquiet : s.toConn.Quiet G := hs ▸ hc₀
    rw [if_pos hquiet.cursorActive]
    have hnone : s.memc.getLine keys = [] := if_pos hkeys
    refine ensures_pure.mpr ⟨rfl, hp, ⟨?_, congrArg _ hs, fun h => absurd hnone h⟩, by simp [hkeys]⟩
    rw [Conn.Sent, if_pos hnone]
    exact hs
  · rename_i hkeys
    obtain ⟨hv, hn, hone, hroom, hread, hcopied, hout⟩ := hs
    rw [if_neg (by omega)]
    simp only [ensures_bind, ensures_set]
    have halone : Alone (fun s : St κ => s.valid = true ∧ G s.net) { s with issued := s.issued + 1 } :=
      Conn.alone hv hn hp (Nat.le_of_eq hone) hroom
    refine (hK.writer.memcachedIoWrite _ true halone).mono fun ok t ht => ?_
    obtain ⟨rfl, hput, -, hempty⟩ := ht
    rw [if_pos rfl]
    have hmemc := congrArg Shared.memc hput.shared
    have hpurging := congrArg Shared.isPurging hput.shared
    refine ensures_pure.mpr ⟨hmemc, hpurging.trans hp, ⟨?_, hput.readBuffer.trans hread, fun _ => ?_⟩, by simp [hkeys]⟩
    on_goal 2 =>
      rw [hput.copied]
      exact append_ne_nil_of_left_ne_nil hcopied _
    have hne : s.memc.getLine keys ≠ [] := by simp [Memcached.getLine, hkeys]
    rw [Conn.Sent, if_neg hne]
    refine ⟨hput.valid, hput.cursorActive.trans hone, hempty rfl, ?_⟩
    have hsent : t.sentBytes = t.outgoing.map (·.byte) := by
      rw [Conn.sentBytes, if_pos hput.valid, Conn.outgoing, hempty rfl, append_nil]
    rw [hsent, hput.outgoing, map_append]
    show s.outgoing.map _ ++ _ = _
    rw [hout, Memcached.getLine, if_neg hkeys, append_assoc]
    rfl

end

/-! ## All connections -/

/-- The server a key is routed to: that of the group key, if there is one. -/
def Memcached.mgetRoute (H : Hashkit.Hashes) (memc : Memcached) (env : Nat → Env) (groupKey : Bytes) (x : Nat)
    (key : Bytes) : Option Nat :=
  if groupKey = [] then memc.generateHash H (env x).random key
  else memc.generateHash H (env 0).random groupKey

/-- The keys that are routed to server `k`, in their order. -/
def routedTo (route : Nat → Bytes → Option Nat) (k : Nat) (keys : List Bytes) (x : Nat) : List Bytes :=
  ((keys.zipIdx x).filter fun p => route p.2 p.1 == some k).map Prod.fst

theorem routedTo_cons (route : Nat → Bytes → Option Nat) (k : Nat) (key : Bytes) (keys : List Bytes) (x : Nat) :
    routedTo route k (key :: keys) x =
      (if route x key = some k then [key] else []) ++ routedTo route k keys (x + 1) := by
  rw [routedTo, zipIdx_cons, filter_cons]
  by_cases h : route x key = some k
  · simp [h, routedTo]
  · simp [h, routedTo]

variable {H : Hashkit.Hashes} {env : Nat → Env} {n : Nat} {before : Nat → Conn κ}

theorem keyServer_has {R : Nat → Conn κ → Prop} (hdue : memc.NoneDue (env x).now)
    (hroute : master.or (memc.generateHash H (env x).random key) = some k) (hc : c.Has memc n R) :
    Ensures (keyServer H env master x key) c fun a c' => a = k ∧ c'.Has memc n R := by
  cases master with
  | some m =>
    obtain rfl : m = k := Option.some.inj hroute
    exact ensures_pure.mpr ⟨rfl, hc⟩
  | none => exact serverKey_has hdue hroute hc

theorem sendKeys_asking (hK : TakesAll K G) (hbefore : ∀ k, k < n → (before k).Quiet G)
    (hdue : ∀ x, memc.NoneDue (env x).now)
    (hroute : ∀ i key, (key, i) ∈ keys.zipIdx x → ∃ k < n, master.or (memc.generateHash H (env i).random key) = some k)
    {asked : Nat → List Bytes} {m : Mget} (hm : m.failuresOccuredInSending = false)
    (hhosts : ∀ k, asked k ≠ [] → 0 < m.hostsConnected)
    (hc : c.Has memc n fun k => Conn.Asking G memc (before k) (asked k)) :
    Ensures (sendKeys K H env master (ascii (if memc.flags.supportCas then "gets" else "get")) x keys m) c
      fun m' c' => m'.failuresOccuredInSending = false ∧
        (∀ k, asked k ++ routedTo (fun i key => master.or (memc.generateHash H (env i).random key)) k keys x ≠ [] →
          0 < m'.hostsConnected) ∧ c'.Has memc n fun k => Conn.Asking G memc (before k)
          (asked k ++ routedTo (fun i key => master.or (memc.generateHash H (env i).random key)) k keys x) := by
  induction keys generalizing x asked m c with
  | nil =>
    refine ensures_pure.mpr ⟨hm, fun k hk => hhosts k ?_, ?_⟩
    · simpa [routedTo] using hk
    · simpa [routedTo] using hc
  | cons key keys ih =>
    obtain ⟨k, hk, hkey⟩ := hroute x key (by simp)
    refine (keyServer_has (hdue x) hkey hc).bind fun k' d hd => ?_
    obtain ⟨rfl, hd⟩ := hd
    have hstep : Ensures (onServer k' (addKey K (ascii (if memc.flags.supportCas then "gets" else "get")) key m))
        d fun m' d' => d'.Has memc n (fun j => Conn.Asking G memc (before j)
          (asked j ++ if j = k' then [key] else [])) ∧
          m'.failuresOccuredInSending = m.failuresOccuredInSending ∧ m.hostsConnected ≤ m'.hostsConnected ∧
            (asked k' = [] → 0 < m'.hostsConnected) := by
      refine hd.onServer hk ?_ fun j conn hne hR => ?_
      · rw [if_pos rfl]
        exact addKey_asking hK (hbefore k' hk) key m
      · rw [if_neg hne, append_nil]
        exact hR
    refine hstep.bind fun m' d' hd' => ?_
    obtain ⟨hd', hfailures, hle, hpos⟩ := hd'
    refine (ih (fun i key' hmem => hroute i key' (by simp [hmem])) (hfailures.trans hm) ?_ hd').mono
      fun m'' e he => ?_
    · intro j hj
      by_cases hempty : asked k' = []
      · exact hpos hempty
      · exact (hhosts k' hempty).trans_le hle
    · have hall (j : Nat) : (asked j ++ if j = k' then [key] else []) ++
          routedTo (fun i key => master.or (memc.generateHash H (env i).random key)) j keys (x + 1) =
          asked j ++ routedTo (fun i key => master.or (memc.generateHash H (env i).random key)) j (key :: keys) x := by
        rw [routedTo_cons, append_assoc]
        congr 2
        by_cases hj : j = k'
        · rw [if_pos hj, if_pos (hj ▸ hkey)]
        · rw [if_neg hj, if_neg]
          rw [hkey]
          exact fun h => hj (Option.some.inj h).symm
      simp only [hall] at he
      exact he

theorem routedTo_ne_nil {route : Nat → Bytes → Option Nat} {i : Nat} (hmem : (key, i) ∈ keys.zipIdx x)
    (h : route i key = some k) : routedTo route k keys x ≠ [] := by
  refine ne_nil_of_mem (mem_map_of_mem (mem_filter.mpr ⟨hmem, ?_⟩))
  simpa using h

theorem asciiMget_sends (hK : TakesAll K G) (hbefore : ∀ k, k < n → (before k).Quiet G)
    (hcount : memc.serverCount = n) (hdue : ∀ x, memc.NoneDue (env x).now) (hne : keys ≠ [])
    (hroute : ∀ i key, (key, i) ∈ keys.zipIdx → ∃ k < n, master.or (memc.generateHash H (env i).random key) = some k)
    (hc : c.Has memc n fun k conn => conn = before k) :
    Ensures (asciiMget K H env master keys) c fun rc c' => rc = .success ∧
      c'.Has memc n fun k => Conn.SentOn (before k) (memc.getLine
        (routedTo (fun i key => master.or (memc.generateHash H (env i).random key)) k keys 0)) := by
  generalize hdef : (fun i key => master.or (memc.generateHash H (env i).random key)) = route
  have hstart : c.Has memc n fun k => Conn.Asking G memc (before k) ((fun _ => []) k) :=
    ⟨hc.memc, hc.isPurging, hc.length, fun k conn hconn => by
      rw [Conn.Asking, if_pos rfl]
      exact hc.conns k conn hconn⟩
  simp only [asciiMget, ensures_bind, ensures_get, hc.memc]
  refine (sendKeys_asking hK hbefore hdue hroute rfl (by simp) hstart).mono fun m d hd => ?_
  simp only [nil_append, hdef] at hd
  obtain ⟨hfailures, hhosts, hd⟩ := hd
  -- some server is asked
  obtain ⟨key, keys', rfl⟩ := exists_cons_of_ne_nil hne
  obtain ⟨k, hk, hkey⟩ := hroute 0 key (by simp)
  have hasked : routedTo route k (key :: keys') 0 ≠ [] := by
    rw [← hdef]
    exact routedTo_ne_nil (by simp) hkey
  rw [if_neg (Nat.pos_iff_ne_zero.mp (hhosts k hasked))]
  simp only [servers, ensures_bind, ensures_get, ensures_pure, hd.memc, hcount]
  have hend : Ensures (foldServers (endGet K) (List.range n) (false, false)) d fun done e =>
      (e.Has memc n fun k => Conn.SentOn (before k) (memc.getLine (routedTo route k (key :: keys') 0))) ∧
        done.2 = false ∧ ∀ i < n, routedTo route i (key :: keys') 0 ≠ [] → done.1 = true := by
    refine foldServers_has (I := fun j (done : Bool × Bool) => done.2 = false ∧ ∀ i < j,
      routedTo route i (key :: keys') 0 ≠ [] → done.1 = true) (fun j done hj hI => ?_) ⟨rfl, by simp⟩ hd
    intro s hmemc hp hs
    refine (endGet_asking hK (hbefore j hj) done s hmemc hp hs).mono fun done' t ht => ?_
    refine ⟨ht.1, ht.2.1, ht.2.2.1, ?_⟩
    rw [ht.2.2.2]
    refine ⟨hI.1, fun i hi hne => ?_⟩
    rcases Nat.lt_succ_iff_lt_or_eq.mp hi with hlt | rfl
    · simp [hI.2 i hlt hne]
    · simp [hne]
  refine hend.mono fun done e he => ?_
  rw [he.2.1, he.2.2 k hk hasked, hfailures]
  exact ensures_pure.mpr ⟨rfl, he.1⟩

theorem clearQueue_quiet (hbefore : ∀ k, k < n → (before k).Quiet G)
    (hc : c.Has memc n fun k conn => conn = before k) :
    Ensures (foldServers (fun _ => clearQueue K) (List.range n) ()) c fun _ c' =>
      c'.Has memc n fun k conn => conn = before k := by
  refine (foldServers_has (I := fun _ _ => True) (fun j _ hj _ => ?_) trivial hc).mono fun _ _ h => h.1
  intro s hmemc hp hs
  have hcursor : s.cursorActive = 0 := by
    rw [show s.cursorActive = s.toConn.cursorActive from rfl, hs]
    exact (hbefore j hj).cursorActive
  simp only [clearQueue, ensures_bind, ensures_get, if_pos hcursor]
  exact ensures_pure.mpr ⟨hmemc, hp, hs, trivial⟩

/-- `mget_by_key_real` on a client with nothing outstanding. -/
theorem mgetByKeyReal_sends (hK : TakesAll K G) (hbefore : ∀ k, k < n → (before k).Quiet G)
    (hcount : memc.serverCount = n) (htext : memc.flags.binaryProtocol = false)
    (htcp : memc.flags.useUdp = false) (hdue : ∀ x, memc.NoneDue (env x).now) {groupKey : Bytes} (hne : keys ≠ [])
    (hpass : ∀ key ∈ keys, memc.Passes key)
    (hroute : ∀ i key, (key, i) ∈ keys.zipIdx → ∃ k < n, memc.mgetRoute H env groupKey i key = some k)
    (mgetMode : Bool) (hc : c.Has memc n fun k conn => conn = before k) :
    Ensures (mgetByKeyReal K H env groupKey keys mgetMode) c fun rc c' => rc = .success ∧
      c'.Has memc.begun n fun k => Conn.SentOn (before k)
        (memc.getLine (routedTo (memc.mgetRoute H env groupKey) k keys 0)) := by
  obtain ⟨key₀, keys', hkeys⟩ := exists_cons_of_ne_nil hne
  obtain ⟨k₀, hk₀, hroute₀⟩ := hroute 0 key₀ (by simp [hkeys])
  refine (initializeQuery_has (by omega) hc).bind fun rc d hd => ?_
  obtain ⟨rfl, hd⟩ := hd
  have hok : ¬ReturnT.success.isFailed = true := Bool.false_ne_true
  rw [if_neg hok]
  refine ensures_bind.mpr (ensures_get.mpr ?_)
  have hflags : memc.begun.flags = memc.flags := rfl
  rw [hd.memc, if_neg (by rw [hflags, htcp]; exact Bool.false_ne_true), if_neg hne]
  have hpass' : ∀ key ∈ keys, memc.begun.Passes key := hpass
  have hdue' (x : Nat) : memc.begun.NoneDue (env x).now := hdue x
  refine (onClient_has (keyTests_pass hpass') hd).bind fun rc d hd => ?_
  obtain ⟨rfl, hd⟩ := hd
  rw [if_neg hok]
  -- the server of the group key, if there is one
  have hmaster : Ensures (if groupKey = [] then pure none else some <$> serverKey H (env 0) groupKey) d
      fun master e => (fun i key => master.or (memc.begun.generateHash H (env i).random key)) =
        memc.mgetRoute H env groupKey ∧ e.Has memc.begun n fun k conn => conn = before k := by
    unfold mgetRoute at hroute₀ ⊢
    refine ensures_ite (fun hgroup => ensures_pure.mpr ⟨?_, hd⟩) fun hgroup => ?_
    · simp only [if_pos hgroup]
      rfl
    · rw [if_neg hgroup] at hroute₀
      have hroute' : memc.begun.generateHash H (env 0).random groupKey = some k₀ := hroute₀
      refine ensures_map.mpr ((serverKey_has (hdue' 0) hroute' hd).mono fun k e he => ?_)
      obtain ⟨rfl, he⟩ := he
      simp only [if_neg hgroup, hroute₀]
      exact ⟨rfl, he⟩
  refine hmaster.bind fun master e he => ?_
  obtain ⟨hroutes, he⟩ := he
  have hcount' : memc.begun.serverCount = n := hcount
  simp only [servers, ensures_bind, ensures_get, ensures_pure, he.memc, hcount']
  refine (clearQueue_quiet hbefore he).mono fun _ f hf => ?_
  rw [hf.memc, if_neg (by rw [hflags, htext]; exact Bool.false_ne_true)]
  refine (asciiMget_sends hK hbefore hcount' hdue' hne (fun i key hmem => ?_) hf).mono fun rc c' hc' => ?_
  · obtain ⟨k, hk, hkey⟩ := hroute i key hmem
    rw [← hroutes] at hkey
    exact ⟨k, hk, hkey⟩
  · rw [hroutes] at hc'
    exact hc'

/-- Each server is sent one command with the keys that are routed to it, and waits for its answer just if it
was sent one. -/
theorem text_mget_sends (K : Kernel κ) (hK : TakesAll K G) (H : Hashkit.Hashes) (env : Nat → Env)
    (c : Client κ) (hcount : c.memc.serverCount = c.conns.length) (hpurging : c.isPurging = false)
    (hquiet : ∀ conn ∈ c.conns, conn.Quiet G) (htext : c.memc.flags.binaryProtocol = false)
    (htcp : c.memc.flags.useUdp = false) (hdue : ∀ x, c.memc.NoneDue (env x).now) (groupKey : Bytes)
    (keys : List Bytes) (hne : keys ≠ []) (hpass : ∀ key ∈ keys, c.memc.Passes key)
    (hroute : ∀ i key, (key, i) ∈ keys.zipIdx →
      ∃ k < c.conns.length, c.memc.mgetRoute H env groupKey i key = some k) :
    Ensures (memcachedMgetByKey K H env groupKey keys) c fun rc c' => rc = .success ∧
      ∀ k conn conn', c.conns[k]? = some conn → c'.conns[k]? = some conn' →
        Conn.Sent conn (c.memc.getLine (routedTo (c.memc.mgetRoute H env groupKey) k keys 0)) conn' ∧
        (conn'.cursorActive = 1 ↔ routedTo (c.memc.mgetRoute H env groupKey) k keys 0 ≠ []) := by
  obtain ⟨key₀, keys', hkeys⟩ := exists_cons_of_ne_nil hne
  obtain ⟨k₀, hk₀, -⟩ := hroute 0 key₀ (by simp [hkeys])
  obtain ⟨first, rest, hconns⟩ := exists_cons_of_length_pos (Nat.lt_of_le_of_lt (Nat.zero_le _) hk₀)
  have hbefore (k : Nat) (hk : k < c.conns.length) : (c.conns.getD k first).Quiet G := by
    refine hquiet _ ?_
    rw [getD_eq_getElem _ _ hk]
    exact getElem_mem hk
  have hgetD (k : Nat) (conn : Conn κ) (h : c.conns[k]? = some conn) : conn = c.conns.getD k first := by
    rw [getD_eq_getElem?_getD, h]
    rfl
  refine (mgetByKeyReal_sends hK hbefore hcount htext htcp hdue hne hpass hroute true
    ⟨rfl, hpurging, rfl, hgetD⟩).mono fun rc c' hc' => ⟨hc'.1, fun k conn conn' hconn hconn' => ?_⟩
  obtain ⟨hsent, -⟩ := hc'.2.conns k conn' hconn'
  rw [← hgetD k conn hconn] at hsent
  refine ⟨hsent, ?_⟩
  have hcursor : conn.cursorActive = 0 := (hquiet conn (mem_of_getElem? hconn)).cursorActive
  unfold Conn.Sent Memcached.getLine at hsent
  by_cases hnone : routedTo (c.memc.mgetRoute H env groupKey) k keys 0 = []
  · rw [if_pos (if_pos hnone)] at hsent
    rw [hsent, hcursor, hnone]
    simp
  · rw [if_neg (by rw [if_neg hnone]; simp)] at hsent
    exact iff_of_true hsent.2.1 hnone

/-- Two servers that were not used yet. -/
def twoSinks : Client Unit where
  memc := { servers := [.ofServer (letterHost 'a'), .ofServer (letterHost 'b')] }
  conns := [{ net := () }, { net := () }]

/-- Two keys, without a group key. -/
theorem text_mget_sends_two :
    Ensures (memcachedMgetByKey sink fnvHashes (fun _ => ⟨0, 0⟩) [] [[97], [98]]) twoSinks fun rc c' =>
      rc = .success ∧ ∀ k conn conn', twoSinks.conns[k]? = some conn → c'.conns[k]? = some conn' →
        Conn.Sent conn (twoSinks.memc.getLine (routedTo
          (twoSinks.memc.mgetRoute fnvHashes (fun _ => ⟨0, 0⟩) []) k [[97], [98]] 0)) conn' ∧
        (conn'.cursorActive = 1 ↔ routedTo
          (twoSinks.memc.mgetRoute fnvHashes (fun _ => ⟨0, 0⟩) []) k [[97], [98]] 0 ≠ []) := by
  have hall : TakesAll sink fun _ => True :=
    ⟨fun _ b _ _ => ⟨b, (), rfl, trivial⟩, fun _ cells _ _ => ⟨cells.length, (), rfl, trivial⟩⟩
  refine text_mget_sends sink hall fnvHashes _ twoSinks rfl rfl ?_ rfl rfl (fun _ h => nomatch h) [] _
    (by decide) ?_ ?_
  · intro conn hconn
    have hnew : conn = { net := () } := by simpa [twoSinks] using hconn
    rw [hnew]
    exact ⟨rfl, rfl, trivial⟩
  · intro key hkey
    obtain rfl | rfl : key = [97] ∨ key = [98] := by simpa using hkey
    · exact ⟨by decide, by decide, fun h => nomatch h⟩
    · exact ⟨by decide, by decide, fun h => nomatch h⟩
  · intro i key hkey
    obtain ⟨rfl, rfl⟩ | ⟨rfl, rfl⟩ : key = [97] ∧ i = 0 ∨ key = [98] ∧ i = 1 := by simpa using hkey
    · exact ⟨0, by decide, by decide +kernel⟩
    · exact ⟨1, by decide, by decide +kernel⟩

end LM
