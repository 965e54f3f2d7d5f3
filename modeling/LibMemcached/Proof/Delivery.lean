import LibMemcached.Proof.Fetching
import LibMemcached.Proof.Routing

/-!
# Servers that take what is written

On a server where connecting and sending succeed (`TakesAll`), whatever is written goes to the server once and
in its order (`Put`), in as many pieces as `send` likes. That is one of the relations all writing functions
keep (`TakesAll.writer`).

The calls of a client work on one server after another. What they do is described by a relation for each
connection (`Client.Has`), with a rule for a step on one server (`Client.Has.onServer`), one for a loop over
all servers (`foldServers_has`) and one for the choice of a server (`serverKey_has`).
-/

namespace LM

open List

variable {κ α : Type} {K : Kernel κ} {G : κ → Prop} {k : Nat} {a : α} {I : Nat → α → Prop} {f : α → Act κ α}

/-- From the states in `G` connecting and sending succeed. -/
structure TakesAll (K : Kernel κ) (G : κ → Prop) : Prop where
  connect (memc : Memcached) (b : Backoff) (k : κ) :
    G k → ∃ b' k', K.connect memc b k = (none, b', k') ∧ G k'
  send (k : κ) (cells : List OutByte) : G k → cells ≠ [] → ∃ n k', K.send k cells = (.sent n, k') ∧ G k'

/-- All that was to be sent on the connection: what was, and what is in the write buffer. -/
def Conn.outgoing (c : Conn κ) : List OutByte := c.accepted ++ c.writeBuffer

/-- `cells` were written behind what was to be sent, and nothing else happened. -/
structure Put (G : κ → Prop) (s : St κ) (cells : List OutByte) (s' : St κ) : Prop where
  shared : s'.toShared = s.toShared
  valid : s'.valid = true
  cursorActive : s'.cursorActive = s.cursorActive
  readBuffer : s'.readBuffer = s.readBuffer
  copied : s'.copied = s.copied ++ cells
  outgoing : s'.outgoing = s.outgoing ++ cells
  net : G s'.net

namespace Put

variable {s t u : St κ} {cells cells' : List OutByte}

theorem rfl (hv : s.valid = true) (hn : G s.net) : Put G s [] s :=
  ⟨Eq.refl _, hv, Eq.refl _, Eq.refl _, (append_nil _).symm, (append_nil _).symm, hn⟩

theorem trans (h : Put G s cells t) (h' : Put G t cells' u) : Put G s (cells ++ cells') u where
  shared := h'.shared.trans h.shared
  valid := h'.valid
  cursorActive := h'.cursorActive.trans h.cursorActive
  readBuffer := h'.readBuffer.trans h.readBuffer
  copied := by rw [h'.copied, h.copied, append_assoc]
  outgoing := by rw [h'.outgoing, h.outgoing, append_assoc]
  net := h'.net

theorem copyIn (hv : s.valid = true) (hn : G s.net) (cells : List OutByte) : Put G s cells (s.copyIn cells) :=
  ⟨Eq.refl _, hv, Eq.refl _, Eq.refl _, Eq.refl _, (append_assoc _ _ _).symm, hn⟩

theorem purging (h : Put G { s with isPurging := true } cells t) (hp : s.isPurging = false) :
    Put G s cells { t with isPurging := false } where
  shared := by
    have ht : ({ t with isPurging := false } : St κ).toShared = { t.toShared with isPurging := false } :=
      Eq.refl _
    rw [ht, h.shared, ← hp]
  valid := h.valid
  cursorActive := h.cursorActive
  readBuffer := h.readBuffer
  copied := h.copied
  outgoing := h.outgoing
  net := h.net

end Put

theorem flushLoop_put (hK : TakesAll K G) (purge : Act κ Bool) (total : Nat) {fuel : Nat}
    {rest : List OutByte} {s : St κ} (hv : s.valid = true) (hn : G s.net) (hf : rest.length ≤ fuel) :
    Ensures (flushLoop K purge total fuel rest) s fun ok t =>
      ok = true ∧ t.toShared = s.toShared ∧ t.valid = true ∧ t.cursorActive = s.cursorActive ∧
        t.readBuffer = s.readBuffer ∧ t.copied = s.copied ∧ t.accepted = s.accepted ++ rest ∧ G t.net ∧
        t.writeBuffer = [] := by
  induction fuel generalizing rest s with
  | zero =>
    obtain rfl : rest = [] := length_eq_zero_iff.mp (by omega)
    simp only [flushLoop, ensures_bind, ensures_modify]
    exact ensures_pure.mpr ⟨rfl, rfl, hv, rfl, rfl, rfl, (append_nil _).symm, hn, rfl⟩
  | succ fuel ih =>
    cases rest with
    | nil =>
      simp only [flushLoop, ensures_bind, ensures_modify]
      exact ensures_pure.mpr ⟨rfl, rfl, hv, rfl, rfl, rfl, (append_nil _).symm, hn, rfl⟩
    | cons c cs =>
      obtain ⟨n, net, hsend, hnet⟩ := hK.send s.net (c :: cs) hn (cons_ne_nil _ _)
      obtain ⟨hpos, -⟩ := K.send_sent s.net (c :: cs) n (by rw [hsend]) (cons_ne_nil _ _)
      simp only [flushLoop, ensures_bind, ensures_get, hv, if_true, hsend, ensures_set]
      have hlen : ((c :: cs).drop n).length ≤ fuel := by
        rw [length_drop, length_cons] at *
        omega
      refine Ensures.mono (ih ?_ ?_ hlen) fun ok t ht => ?_
      · rfl
      · exact hnet
      · obtain ⟨hok, hshared, hvalid, hcursor, hread, hcopied, haccepted, hnet', hwb⟩ := ht
        refine ⟨hok, hshared, hvalid, hcursor, hread, hcopied, ?_, hnet', hwb⟩
        rw [haccepted, append_assoc, take_append_drop]

theorem TakesAll.writer (hK : TakesAll K G) : Writer K (fun s => s.valid = true ∧ G s.net) (Put G) where
  refl h := .rfl h.1 h.2
  trans h h' := h.trans h'
  keeps h := ⟨h.valid, h.net⟩
  shared h := h.shared
  cursorActive h := h.cursorActive
  copyIn cells h := .copyIn h.1 h.2 cells
  begins h := h
  purging h hp := h.purging hp
  flush purge total _ h hf := by
    refine (flushLoop_put hK purge total h.1 h.2 hf).mono fun ok t ht => ?_
    obtain ⟨hok, hshared, hvalid, hcursor, hread, hcopied, haccepted, hnet, hwb⟩ := ht
    refine ⟨hok, ⟨hshared, hvalid, hcursor, hread, hcopied.trans (append_nil _).symm, ?_, hnet⟩, hwb⟩
    show t.accepted ++ t.writeBuffer = _ ++ []
    rw [haccepted, hwb, append_nil, append_nil]
    rfl

/-! ## One relation for each connection -/

/-- A client with the settings `memc` and `n` servers, whose connections have the relations `R`. -/
structure Client.Has (c : Client κ) (memc : Memcached) (n : Nat) (R : Nat → Conn κ → Prop) : Prop where
  memc : c.memc = memc
  isPurging : c.isPurging = false
  length : c.conns.length = n
  conns (k : Nat) (conn : Conn κ) : c.conns[k]? = some conn → R k conn

variable {c : Client κ} {memc : Memcached} {n : Nat} {R R' : Nat → Conn κ → Prop}

/-- What a function of one server does to its connection, and what it returns. -/
def ActsOn (memc : Memcached) (R R' : Conn κ → Prop) (Q : α → Prop) (m : Act κ α) : Prop :=
  ∀ s : St κ, s.memc = memc → s.isPurging = false → R s.toConn →
    Ensures m s fun a s' => s'.memc = memc ∧ s'.isPurging = false ∧ R' s'.toConn ∧ Q a

theorem Client.Has.onServer (hc : c.Has memc n R) (hk : k < n) {m : Act κ α} {Q : α → Prop}
    (hm : ActsOn memc (R k) (R' k) Q m) (hother : ∀ j conn, j ≠ k → R j conn → R' j conn) :
    Ensures (onServer k m) c fun a c' => c'.Has memc n R' ∧ Q a := by
  have hconn : c.conns[k]? = some (c.conns.get ⟨k, hc.length ▸ hk⟩) := by simp
  refine onServer_ensures hconn ((hm ⟨_, c.toShared⟩ hc.memc hc.isPurging (hc.conns k _ hconn)).mono
    fun a s hs => ⟨⟨hs.1, hs.2.1, ?_, fun j conn hj => ?_⟩, hs.2.2.2⟩)
  · rw [length_set, hc.length]
  · by_cases hjk : k = j
    · subst hjk
      rw [List.getElem?_set_self (hc.length ▸ hk)] at hj
      exact Option.some.inj hj ▸ hs.2.2.1
    · rw [List.getElem?_set_ne hjk] at hj
      exact hother j conn (Ne.symm hjk) (hc.conns j conn hj)

/-- A loop over the servers from `k` on: those before have the relations `R'` already. `I j a` holds of the
variable of the loop before server `j`. -/
theorem foldServers_from {count : Nat} (hn : k + count = n)
    (hf : ∀ j a, j < n → I j a → ActsOn memc (R j) (R' j) (I (j + 1)) (f a)) (ha : I k a)
    (hc : c.Has memc n fun j => if j < k then R' j else R j) :
    Ensures (foldServers f (List.range' k count) a) c fun b c' => c'.Has memc n R' ∧ I n b := by
  induction count generalizing k a c with
  | zero =>
    obtain rfl : k = n := hn
    refine ensures_pure.mpr ⟨⟨hc.memc, hc.isPurging, hc.length, fun j conn hj => ?_⟩, ha⟩
    have hlt : j < k := hc.length ▸ (List.getElem?_eq_some_iff.mp hj).1
    have hR := hc.conns j conn hj
    rwa [if_pos hlt] at hR
  | succ count ih =>
    have hk : k < n := by omega
    have hstep : Ensures (onServer k (f a)) c fun b d =>
        d.Has memc n (fun j => if j < k + 1 then R' j else R j) ∧ I (k + 1) b := by
      refine hc.onServer hk ?_ ?_
      · rw [if_neg (Nat.lt_irrefl k), if_pos (Nat.lt_succ_self k)]
        exact hf k a hk ha
      · intro j conn hne hR
        by_cases hlt : j < k
        · rw [if_pos hlt] at hR
          rwa [if_pos (by omega)]
        · rw [if_neg hlt] at hR
          rwa [if_neg (by omega)]
    exact hstep.bind fun b d hd => ih (by omega) hd.2 hd.1

theorem foldServers_has (hf : ∀ j a, j < n → I j a → ActsOn memc (R j) (R' j) (I (j + 1)) (f a))
    (ha : I 0 a) (hc : c.Has memc n R) :
    Ensures (foldServers f (List.range n) a) c fun b c' => c'.Has memc n R' ∧ I n b := by
  rw [range_eq_range']
  refine foldServers_from (Nat.zero_add n) hf ha ⟨hc.memc, hc.isPurging, hc.length, fun j conn hj => ?_⟩
  rw [if_neg (Nat.not_lt_zero j)]
  exact hc.conns j conn hj

/-! ## Choosing servers -/

/-- No rebuild of the continuum is due, so that no server is ejected. -/
def Memcached.NoneDue (memc : Memcached) (now : Nat) : Prop :=
  memc.flags.autoEjectHosts = true → memc.ketama.nextDistributionRebuild ≠ 0 →
    now ≤ memc.ketama.nextDistributionRebuild

theorem Memcached.NoneDue.regenForAutoEject {now : Nat} (h : memc.NoneDue now) (H : Hashkit.Hashes) :
    memc.regenForAutoEject H now = memc := by
  unfold Memcached.regenForAutoEject
  split
  · rename_i hdue
    simp only [Bool.and_eq_true, ne_eq, decide_eq_true_eq] at hdue
    exact if_neg (Nat.not_lt_of_le (h hdue.1 hdue.2))
  · rfl

theorem serverKey_has {H : Hashkit.Hashes} {env : Env} {key : Bytes} (hsettled : memc.NoneDue env.now)
    (hroute : memc.generateHash H env.random key = some k) (hc : c.Has memc n R) :
    Ensures (serverKey H env key) c fun a c' => a = k ∧ c'.Has memc n R := by
  have hredistributed : c.memc.generateHashWithRedistribution H env.now env.random key = (some k, memc) := by
    rw [hc.memc, Memcached.generateHashWithRedistribution, hsettled.regenForAutoEject]
    exact Prod.ext hroute rfl
  simp only [serverKey, onClient, ensures_bind, ensures_get, ensures_set, ensures_pure, hredistributed,
    ensures_modify]
  exact ⟨trivial, rfl, hc.isPurging, hc.length, hc.conns⟩

/-! ## The beginning of a call -/

/-- The settings once a call began. -/
def Memcached.begun (memc : Memcached) : Memcached := Memcached.errorFree { memc with queryId := memc.queryId + 1 }

theorem initializeQuery_has (hcount : memc.serverCount ≠ 0) (hc : c.Has memc n R) :
    Ensures initializeQuery c fun rc d => rc = .success ∧ d.Has memc.begun n R := by
  simp only [initializeQuery, onClient, ensures_bind, ensures_get, ensures_set, ensures_pure, ensures_modify,
    hc.memc, Memcached.initializeQuery_some hcount]
  exact ⟨trivial, rfl, hc.isPurging, hc.length, hc.conns⟩

theorem onClient_has {f : Memcached → α × Memcached} (hf : f memc = (a, memc)) (hc : c.Has memc n R) :
    Ensures (onClient f) c fun b d => b = a ∧ d.Has memc n R := by
  simp only [onClient, ensures_bind, ensures_get, ensures_set, ensures_pure, hc.memc, hf]
  exact ⟨trivial, rfl, hc.isPurging, hc.length, hc.conns⟩

end LM
