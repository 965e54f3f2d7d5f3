import LibMemcached.Proof.CommandLines
import LibMemcached.Proof.TextMget

/-!
# The calls on a server that takes everything

On a server that accepts every byte and closes the connection when it is read from, a call that gets as
far as sending writes its command and returns (`KeyCall.run_sink`). So the tests a call makes before it
sends are all that keeps a key from being written.
-/

namespace LM

open List Memcached

variable {H : Hashkit.Hashes} {memc : Memcached} {s : St Unit} {key : Bytes} {length : Nat} {t : St Unit}

/-! ## Writing and reading -/

theorem sink_takesAll : TakesAll sink fun _ => True :=
  ⟨fun _ b _ _ => ⟨b, (), rfl, trivial⟩, fun _ cells _ _ => ⟨cells.length, (), rfl, trivial⟩⟩

/-- An open connection from which nothing was read, and to which something was written. -/
structure Conn.Begun (c : Conn Unit) : Prop where
  valid : c.valid = true
  readBuffer : c.readBuffer = []
  cursorActive : c.cursorActive ≤ 1
  room : c.writeBuffer.length ≤ maxBuffer
  copied : c.copied ≠ []

theorem memcachedVdo_sink {quiet : Bool} (withFlush : Bool) {vector : List Bytes}
    (hne : vector.flatten ≠ []) :
    ActsOn memc (· = { net := () }) Conn.Begun (· = .success) (memcachedVdo sink quiet vector withFlush) := by
  rintro ⟨conn, shared⟩ hmemc hp hs
  obtain rfl : conn = { net := () } := hs
  have hconnect : Ensures (memcachedConnect sink) ⟨{ net := () }, shared⟩ fun rc t =>
      rc = .success ∧ t = ⟨{ net := (), valid := true }, shared⟩ := ⟨_, _, rfl, rfl, rfl⟩
  simp only [memcachedVdo, ensures_bind]
  refine hconnect.mono fun rc t ht => ?_
  obtain ⟨rfl, rfl⟩ := ht
  simp only [ReturnT.isFailed, Bool.false_eq_true, if_false, ensures_bind, ensures_get, ensures_set]
  have hnew : Alone (fun s : St Unit => s.valid = true ∧ True)
      ⟨{ net := (), valid := true }, { shared with issued := shared.issued + 1 }⟩ :=
    ⟨⟨rfl, trivial⟩, hp, Nat.zero_le _, Nat.zero_le _⟩
  refine (sink_takesAll.writer.memcachedIoWritev _ withFlush hnew).mono fun ok u hu => ?_
  obtain ⟨rfl, hput, halone, -⟩ := hu
  have hmemc' : u.memc = memc := (congrArg Shared.memc hput.shared).trans hmemc
  have hpurging : u.isPurging = false := (congrArg Shared.isPurging hput.shared).trans hp
  have hwritten : u.copied ≠ [] := by
    rw [hput.copied, pieces_flatten length_command]
    refine append_ne_nil_of_right_ne_nil _ ?_
    exact ne_nil_of_length_pos (length_command.symm ▸ length_pos_iff.mpr hne)
  simp only [if_true, vdoWritten, ensures_bind, ensures_get]
  split
  · simp only [responseIncrement, ensures_modify, ensures_pure]
    refine ⟨hmemc', hpurging, ⟨hput.valid, hput.readBuffer, ?_, halone.room, hwritten⟩, trivial⟩
    show (u.cursorActive + 1) % 2 ^ 32 ≤ 1
    rw [hput.cursorActive]
    exact Nat.le_refl 1
  · simp only [ensures_pure]
    exact ⟨hmemc', hpurging, ⟨hput.valid, hput.readBuffer, hput.cursorActive ▸ Nat.zero_le 1, halone.room,
      hwritten⟩, trivial⟩

/-- Nothing comes back, and the connection is closed. -/
structure Closed (s s' : St Unit) : Prop where
  copied : s'.copied = s.copied
  cursorActive : s'.cursorActive = 0
  readBuffer : s'.readBuffer = []
  isPurging : s'.isPurging = s.isPurging
  flags : s'.memc.flags = s.memc.flags

/-- Who reads a line finds the connection closed. -/
theorem memcachedIoReadline_sink (hl : 0 < length) (hv : s.valid = true) (hr : s.readBuffer = []) :
    Ensures (memcachedIoReadline sink length) s fun r s' => r = (.connectionFailure, []) ∧ Closed s s' := by
  obtain ⟨length, rfl⟩ := Nat.exists_eq_succ_of_ne_zero (Nat.ne_of_gt hl)
  have hfill : Ensures (ioFill sink) s fun rc s' => rc = .connectionFailure ∧ Closed s s' := by
    refine ⟨_, _, rfl, rfl, rfl, rfl, rfl, rfl, ?_⟩
    show (s.memc.errorSet _ _).flags = s.memc.flags
    rw [SameSettings.errorSet s.memc]
  simp only [memcachedIoReadline, readlineLoop, memcachedIoRead, ioReadLoop, ensures_bind, ensures_get, hv, hr,
    Bool.not_true, Bool.false_eq_true, if_false, if_true]
  refine hfill.mono fun rc t ht => ?_
  obtain ⟨rfl, ht⟩ := ht
  exact ensures_pure.mpr (ensures_pure.mpr ⟨rfl, ht⟩)

theorem memcachedResponse_sink (hl : 0 < length) (hs : s.toConn.Begun) (hp : s.isPurging = false)
    (htext : s.memc.flags.binaryProtocol = false) :
    Ensures (memcachedResponse sink length) s fun rc s' => rc = .connectionFailure ∧ Closed s s' := by
  simp only [memcachedResponse, ensures_bind, ensures_get]
  have hflush : Ensures (if s.memc.flags.noBlock then memcachedIoWrite sink [] true else pure true) s
      fun _ t => Put (fun _ => True) s [] t := by
    refine ensures_ite (fun _ => ?_) fun _ => ensures_pure.mpr (.rfl hs.valid trivial)
    exact (sink_takesAll.writer.memcachedIoWrite [] true ⟨⟨hs.valid, trivial⟩, hp, hs.cursorActive,
      hs.room⟩).mono fun _ t ht => ht.2.1
  refine hflush.mono fun _ t ht => ?_
  have hmemc : t.memc = s.memc := congrArg Shared.memc ht.shared
  have hcopied : t.copied = s.copied := ht.copied.trans (append_nil _)
  have hnojunk : ¬(!t.memc.flags.binaryProtocol && decide (1 < t.cursorActive)) = true := by
    have hcursor := ht.cursorActive ▸ hs.cursorActive
    simp
    omega
  have htext' : t.memc.flags.binaryProtocol = false := by rw [hmemc, htext]
  rw [if_neg hnojunk]
  refine ensures_pure.mpr ?_
  have hok : ¬ReturnT.success.isFatal = true := by decide
  rw [if_neg hok]
  simp only [readOneResponse, responseDecrement, ensures_bind, ensures_modify, ensures_get, htext',
    Bool.false_eq_true, if_false, textualReadOneResponse]
  refine (memcachedIoReadline_sink (s := { t with cursorActive := t.cursorActive - 1 }) hl ht.valid
    (ht.readBuffer.trans hs.readBuffer)).mono fun r u hu => ?_
  obtain ⟨rfl, hu⟩ := hu
  refine ensures_pure.mpr (ensures_modify.mpr (ensures_pure.mpr (ensures_pure.mpr ⟨rfl, ?_⟩)))
  have hpurging : t.isPurging = s.isPurging := congrArg Shared.isPurging ht.shared
  exact ⟨hu.copied.trans hcopied, rfl, rfl, hu.isPurging.trans hpurging, hu.flags.trans (by rw [hmemc])⟩

/-! ## The calls on it -/

/-- A client with connections that were not used yet. -/
def sinkClient (memc : Memcached) : Client Unit where
  memc := memc
  conns := List.replicate memc.serverCount { net := () }

theorem sinkClient_atRest (memc : Memcached) : (sinkClient memc).AtRest := by
  refine ⟨rfl, fun conn hconn => ?_⟩
  rw [eq_of_mem_replicate hconn]
  exact Nat.zero_le _

theorem sinkClient_has (memc : Memcached) :
    (sinkClient memc).Has memc memc.serverCount fun _ conn => conn = { net := () } :=
  ⟨rfl, rfl, length_replicate, fun _ _ h => eq_of_mem_replicate (mem_of_getElem? h)⟩

/-- Something was written. -/
def Client.Sent (c : Client Unit) : Prop :=
  ∃ (k : Nat) (conn : Conn Unit), c.conns[k]? = some conn ∧ conn.copied ≠ []

/-- The key is routed to a server there is. -/
def Memcached.Routable (H : Hashkit.Hashes) (memc : Memcached) (key : Bytes) : Prop :=
  ∃ k < memc.serverCount, memc.generateHash H 0 key = some k

section Calls

variable {α : Type} {c : Client Unit} {k n : Nat} {groupKey : Bytes} {R : Nat → Conn Unit → Prop}

/-- The last that a call does on the connection it writes to. -/
theorem Client.Has.sent (hc : c.Has memc n R) (hk : k < n) {m : Act Unit α}
    (hm : ∀ s : St Unit, s.memc = memc → s.isPurging = false → R k s.toConn →
      Ensures m s fun _ s' => s'.copied ≠ []) : Ensures (LM.onServer k m) c fun _ c' => c'.Sent := by
  have hlt : k < c.conns.length := hc.length ▸ hk
  have hconn : c.conns[k]? = some c.conns[k] := List.getElem?_eq_getElem hlt
  exact onServer_ensures hconn ((hm ⟨_, c.toShared⟩ hc.memc hc.isPurging (hc.conns k _ hconn)).mono
    fun _ s hs => ⟨k, s.toConn, List.getElem?_set_self hlt, hs⟩)

theorem Client.Has.written (hc : c.Has memc n fun _ conn => conn = { net := () }) (hk : k < n) {m : Act Unit α}
    {Q : α → Prop} (hm : ActsOn memc (· = { net := () }) Conn.Begun Q m) :
    Ensures (LM.onServer k m) c fun a c' => (c'.Has memc n fun j conn => j = k → conn.Begun) ∧ Q a :=
  hc.onServer hk (fun s hmemc hp hs => (hm s hmemc hp hs).mono fun _ _ ht => ⟨ht.1, ht.2.1, fun _ => ht.2.2.1, ht.2.2.2⟩)
    fun _ _ hne _ h => absurd h hne

theorem Client.Has.begun (hc : c.Has memc n fun j conn => j = k → conn.Begun) (hk : k < n) : c.Sent := by
  have hconn := List.getElem?_eq_getElem (hc.length ▸ hk : k < c.conns.length)
  exact ⟨k, _, hconn, (hc.conns k _ hconn rfl).copied⟩

theorem Client.Has.routed {Q : α → Client Unit → Prop} (hc : c.Has memc.begun n R)
    (hroute : memc.Routable H groupKey) {g : Nat → Query Unit α}
    (hg : ∀ k d, k < memc.serverCount → d.Has memc.begun n R → Ensures (g k) d Q) :
    Ensures (serverKey H ⟨0, 0⟩ groupKey >>= g) c Q := by
  obtain ⟨k, hk, hhash⟩ := hroute
  refine (serverKey_has (fun _ _ => Nat.zero_le _) hhash hc).bind fun k' d hd => ?_
  obtain ⟨rfl, hd⟩ := hd
  exact hg k' d hk hd

section Item

variable (htext : memc.flags.binaryProtocol = false) (h0 : memc.serverCount ≠ 0)
  (hroute : memc.Routable H groupKey)

include h0 in
theorem opened_sink (failed : ReturnT → Bool) (hfailed : failed .success = false) (hpass : memc.Passes key)
    {x y : ReturnT → Query Unit α} {g : ReturnT → ReturnT → Query Unit α}
    (hg : ∀ c, c.Has memc.begun memc.serverCount (fun _ conn => conn = { net := () }) →
      Ensures (g .success .success) c fun _ c' => c'.Sent) :
    Ensures (do
      let rc ← initializeQuery
      if failed rc then x rc
      else
        let rc' ← onClient fun memc => memc.keyTest key
        if failed rc' then y rc' else g rc rc') (sinkClient memc) fun _ c' => c'.Sent := by
  have hpass' : memc.begun.Passes key := hpass
  refine (initializeQuery_has h0 (sinkClient_has memc)).bind fun rc c hc => ?_
  obtain ⟨rfl, hc⟩ := hc
  rw [if_neg (by simp [hfailed])]
  refine (onClient_has (keyTest_passes hpass') hc).bind fun rc d hd => ?_
  obtain ⟨rfl, hd⟩ := hd
  rw [if_neg (by simp [hfailed])]
  exact hg d hd

include htext

theorem response_sink (hl : 0 < length) (hmemc : s.memc = memc) (hp : s.isPurging = false)
    (hs : s.toConn.Begun) : Ensures (memcachedResponse sink length) s fun _ s' => s'.copied ≠ [] := by
  refine (memcachedResponse_sink hl hs hp (by rw [hmemc, htext])).mono fun rc t ht => ?_
  rw [ht.2.copied]
  exact hs.copied

include h0 hroute

theorem memcachedSend_sink {item : Item} {verb : Verb} (hpass : memc.Passes item.key)
    (hverb : (memc.hashkit.key.isSome && !verb.canBeEncrypted) = false)
    (hsome : (memc.encrypted item.value).isSome = true) (hfits : storageFits (memc.sealed item) = true) :
    Ensures (memcachedSend sink H ⟨0, 0⟩ groupKey item verb) (sinkClient memc) fun _ c' => c'.Sent := by
  obtain ⟨value, hvalue⟩ := Option.isSome_iff_exists.mp hsome
  rw [sealed, hvalue, Option.getD_some] at hfits
  have hbinary : memc.begun.flags.binaryProtocol = false := htext
  have hverb' : (memc.begun.hashkit.key.isSome && !verb.canBeEncrypted) = false := hverb
  have hvalue' : memc.begun.encrypted item.value = some value := hvalue
  refine opened_sink h0 ReturnT.isFailed rfl hpass fun c hc => hc.routed hroute fun k d hk hd => ?_
  simp only [ensures_bind, ensures_get, hd.memc, hverb', hvalue', sendItem, hbinary, Bool.not_true,
    Bool.and_false, Bool.false_eq_true, if_false]
  refine hd.sent hk fun s hmemc hp hs => ?_
  simp only [memcachedSendAscii, hfits, Bool.not_true, Bool.false_eq_true, if_false, ensures_bind, ensures_get]
  have hne : (asciiStorage s.memc.keyNamespace { item with value := value } memc.begun.flags.reply verb).flatten ≠
      [] := by
    rw [asciiStorage_flatten]
    exact append_ne_nil_of_right_ne_nil _ (cons_ne_nil _ _)
  refine (memcachedVdo_sink _ hne s hmemc hp hs).mono fun rc t ht => ?_
  obtain ⟨hmemc, hp, hbegun, rfl⟩ := ht
  refine ensures_ite (fun _ => ensures_pure.mpr hbegun.copied) fun _ =>
    ensures_ite (fun _ => ensures_pure.mpr hbegun.copied) fun _ => ?_
  refine (ensures_bind.mpr ?_ : Ensures (memcachedResponse sink defaultCommandSize >>= _) t _)
  exact (response_sink hbinary (by decide) hmemc hp hbegun).mono fun _ _ hu => ensures_pure.mpr hu

theorem memcachedDelete_sink (hpass : memc.Passes key) :
    Ensures (memcachedDelete sink H ⟨0, 0⟩ groupKey key 0) (sinkClient memc) fun _ c' => c'.Sent := by
  have hbinary : memc.begun.flags.binaryProtocol = false := htext
  refine opened_sink h0 ReturnT.isFatal rfl hpass fun c hc => ?_
  simp only [ne_eq, not_true_eq_false, if_false]
  refine hc.routed hroute fun k d hk hd => ?_
  simp only [ensures_bind, ensures_get, hd.memc, hbinary, Bool.false_eq_true, if_false]
  have hwrites : ActsOn memc.begun (· = { net := () }) Conn.Begun (· = .success)
      (asciiDelete sink key memc.begun.flags.reply memc.begun.flags.bufferRequests) := by
    intro s hmemc hp hs
    simp only [asciiDelete, ensures_bind, ensures_get, hmemc]
    exact memcachedVdo_sink _ ((ItemCall.delete groupKey key 0).vector_ne_nil memc.begun) s hmemc hp hs
  refine (hd.written hk hwrites).mono fun rc e he => ?_
  obtain ⟨he, rfl⟩ := he
  have hsent : e.Sent := he.begun hk
  simp only [not_true_eq_false, if_false]
  refine ensures_ite (fun _ => ensures_pure.mpr hsent) fun _ =>
    ensures_ite (fun _ => ensures_pure.mpr hsent) fun _ => ensures_bind.mpr ?_
  exact (he.sent hk fun s hmemc hp hs => response_sink hbinary (by decide) hmemc hp (hs rfl)).mono
    fun _ _ hf => ensures_pure.mpr hf

theorem incrementDecrement_sink {isIncr : Bool} {offset : UInt64} (hplain : memc.hashkit.key = none)
    (hpass : memc.Passes key) :
    Ensures (incrementDecrement sink H ⟨0, 0⟩ isIncr groupKey key offset none) (sinkClient memc)
      fun _ c' => c'.Sent := by
  have hbinary : memc.begun.flags.binaryProtocol = false := htext
  have hkey : memc.begun.hashkit.key = none := hplain
  have hpass' : memc.begun.Passes key := hpass
  refine (initializeQuery_has h0 (sinkClient_has memc)).bind fun rc c hc => ?_
  obtain ⟨rfl, hc⟩ := hc
  simp only [ensures_bind, ensures_get, hc.memc, hkey, Option.isSome_none, ReturnT.isFailed, Bool.false_eq_true,
    if_false]
  refine (onClient_has (keyTest_passes hpass') hc).mono fun rc d hd => ?_
  obtain ⟨rfl, hd⟩ := hd
  refine hd.routed hroute fun k e hk he => ?_
  simp only [ensures_bind, ensures_get, he.memc, hbinary, Bool.false_eq_true, if_false]
  have hwrites : ActsOn memc.begun (· = { net := () }) Conn.Begun (· = .success)
      (textIncrDecr sink isIncr key offset memc.begun.flags.reply) := by
    intro s hmemc hp hs
    simp only [textIncrDecr, ensures_bind, ensures_get, hmemc]
    exact memcachedVdo_sink _ ((ItemCall.arith isIncr groupKey key offset none).vector_ne_nil memc.begun) s hmemc
      hp hs
  refine (he.written hk hwrites).mono fun rc f hf => ?_
  obtain ⟨hf, rfl⟩ := hf
  refine hf.sent hk fun s hmemc hp hs => ?_
  simp only [autoResponse, ReturnT.isSuccess, Bool.true_and, if_true]
  refine ensures_ite (fun _ => ensures_pure.mpr (hs rfl).copied) fun _ => ensures_bind.mpr ?_
  exact (response_sink hbinary (by decide) hmemc hp (hs rfl)).mono fun _ _ ht =>
    ensures_bind.mpr (ensures_get.mpr (ensures_pure.mpr ht))

theorem memcachedTouch_sink (hpass : memc.Passes key) (expiration : Int) :
    Ensures (memcachedTouch sink H ⟨0, 0⟩ groupKey key expiration) (sinkClient memc) fun _ c' => c'.Sent := by
  have hbinary : memc.begun.flags.binaryProtocol = false := htext
  refine opened_sink h0 ReturnT.isFailed rfl hpass fun c hc => hc.routed hroute fun k d hk hd => ?_
  refine hd.sent hk fun s hmemc hp hs => ?_
  simp only [touchOn, asciiTouch, ensures_bind, ensures_get, hmemc, hbinary, Bool.false_eq_true, if_false]
  refine (memcachedVdo_sink true ((ItemCall.touch groupKey key expiration).vector_ne_nil memc.begun) s hmemc hp
    hs).mono fun rc t ht => ?_
  obtain ⟨hmemc, hp, hbegun, rfl⟩ := ht
  refine ensures_pure.mpr (ensures_bind.mpr ((response_sink hbinary (by decide) hmemc hp hbegun).mono
    fun rc u hu => ensures_ite (fun _ => ensures_pure.mpr hu) fun _ => ?_))
  simp only [setErrorText, ensures_bind, ensures_modify]
  exact ensures_pure.mpr hu

theorem memcachedExist_sink (hudp : memc.flags.useUdp = false) (key : Bytes) :
    Ensures (memcachedExist sink H ⟨0, 0⟩ groupKey key) (sinkClient memc) fun _ c' => c'.Sent := by
  have hbinary : memc.begun.flags.binaryProtocol = false := htext
  have hdatagram : memc.begun.flags.useUdp = false := hudp
  refine (initializeQuery_has h0 (sinkClient_has memc)).bind fun rc c hc => ?_
  obtain ⟨rfl, hc⟩ := hc
  simp only [ReturnT.isFailed, ensures_bind, ensures_get, hc.memc, hdatagram, hbinary, Bool.false_eq_true, if_false]
  refine ensures_bind.mp (hc.routed hroute fun k d hk hd => hd.sent hk fun s hmemc hp hs => ?_)
  simp only [asciiExist, ensures_bind, ensures_get, hmemc]
  refine (memcachedVdo_sink true ((ItemCall.exist groupKey key).vector_ne_nil memc.begun) s hmemc hp hs).mono
    fun rc t ht => ?_
  obtain ⟨hmemc, hp, hbegun, rfl⟩ := ht
  exact ensures_bind.mpr ((response_sink hbinary (by decide) hmemc hp hbegun).mono fun _ _ hu =>
    ensures_pure.mpr hu)

end Item

theorem ItemCall.run_sink {call : ItemCall} (htext : memc.flags.binaryProtocol = false)
    (hroute : memc.Routable H call.groupKey) (h : (KeyCall.item call).Sends memc) :
    Ensures (call.run sink H ⟨0, 0⟩) (sinkClient memc) fun _ c' => c'.Sent := by
  obtain ⟨⟨h0, htested⟩, hfits⟩ := h
  cases call with
  | store verb groupKey item =>
    exact ensures_map.mpr (memcachedSend_sink htext h0 hroute htested hfits.1 hfits.2.1 hfits.2.2)
  | delete groupKey key expiration =>
    obtain ⟨hpass, rfl⟩ := htested
    exact ensures_map.mpr (memcachedDelete_sink htext h0 hroute hpass)
  | arith isIncr groupKey key offset initial =>
    obtain rfl : initial = none := hfits
    exact incrementDecrement_sink htext h0 hroute htested.1 htested.2
  | touch groupKey key expiration =>
    exact ensures_map.mpr (memcachedTouch_sink htext h0 hroute htested expiration)
  | exist groupKey key => exact ensures_map.mpr (memcachedExist_sink htext h0 hroute htested key)

/-! ## Getting from it -/

/-- The answers are waited for: nothing is there to be read, and what is outstanding is outstanding on
an open connection. -/
structure Client.Awaiting (c : Client Unit) : Prop where
  isPurging : c.isPurging = false
  text : c.memc.flags.binaryProtocol = false
  readBuffer : ∀ conn ∈ c.conns, conn.readBuffer = []
  active : ∀ conn ∈ c.conns, 0 < conn.cursorActive → conn.Begun

theorem Conn.SentOn.begun {conn : Conn Unit} {line : Bytes} (h : Conn.SentOn { net := () } line conn) :
    0 < conn.cursorActive ∨ line ≠ [] → conn.Begun := by
  obtain ⟨hsent, hread, hcopied⟩ := h
  unfold Conn.Sent at hsent
  split at hsent
  · next hline =>
    rintro (hactive | hne)
    · rw [hsent] at hactive
      exact absurd hactive (Nat.lt_irrefl 0)
    · exact absurd hline hne
  · next hline =>
    exact fun _ => ⟨hsent.1, hread, Nat.le_of_eq hsent.2.1, by rw [hsent.2.2.1]; exact Nat.zero_le _, hcopied hline⟩

theorem mgetByKeyReal_sink {keys : List Bytes} {mgetMode : Bool} (htext : memc.flags.binaryProtocol = false)
    (h : MgetTested memc keys) (hroute : ∀ key ∈ mgetKeys groupKey keys, memc.Routable H key) :
    Ensures (mgetByKeyReal sink H (fun _ => ⟨0, 0⟩) groupKey keys mgetMode) (sinkClient memc) fun _ c' =>
      c'.Awaiting ∧ c'.Sent ∧ c'.memc.flags = memc.flags := by
  obtain ⟨hudp, hne, hpass⟩ := h
  have hroutes (i : Nat) (key : Bytes) (hmem : (key, i) ∈ keys.zipIdx) :
      ∃ k < memc.serverCount, memc.mgetRoute H (fun _ => ⟨0, 0⟩) groupKey i key = some k := by
    unfold mgetKeys at hroute
    unfold mgetRoute
    split at hroute
    · next hnil =>
      rw [if_pos hnil]
      exact hroute key (fst_mem_of_mem_zipIdx hmem)
    · next hgroup =>
      rw [if_neg hgroup]
      exact hroute groupKey mem_cons_self
  refine (mgetByKeyReal_sends sink_takesAll (fun _ _ => ⟨rfl, rfl, trivial⟩) rfl htext hudp
    (fun _ _ _ => Nat.zero_le _) hne hpass hroutes mgetMode (sinkClient_has memc)).mono fun _ c hc => ?_
  obtain ⟨-, hc⟩ := hc
  refine ⟨⟨hc.isPurging, by rw [hc.memc]; exact htext, fun conn hconn => ?_, fun conn hconn hactive => ?_⟩, ?_,
    by rw [hc.memc]; rfl⟩
  · obtain ⟨k, hk⟩ := mem_iff_getElem?.mp hconn
    exact (hc.conns k conn hk).2.1
  · obtain ⟨k, hk⟩ := mem_iff_getElem?.mp hconn
    exact (hc.conns k conn hk).begun (.inl hactive)
  · obtain ⟨key, keys', rfl⟩ := exists_cons_of_ne_nil hne
    obtain ⟨k, hk, hkey⟩ := hroutes 0 key (by simp)
    have hconn := List.getElem?_eq_getElem (hc.length ▸ hk : k < c.conns.length)
    refine ⟨k, _, hconn, ((hc.conns k _ hconn).begun (.inr ?_)).copied⟩
    rw [Memcached.getLine, if_neg (routedTo_ne_nil (i := 0) (by simp) hkey)]
    simp

theorem scanServers_sink (x : Nat) {conns : List (Conn Unit)} (h : ∀ conn ∈ conns, conn.readBuffer = [])
    (polled : List Nat) : ∃ polled', scanServers x conns polled = .inr polled' := by
  induction conns generalizing x polled with
  | nil => exact ⟨polled, rfl⟩
  | cons conn conns ih =>
    obtain ⟨hconn, hconns⟩ := forall_mem_cons.mp h
    rw [scanServers]
    split
    · exact ⟨polled, rfl⟩
    · rw [if_neg (not_not.mpr hconn)]
      exact ih (x + 1) hconns _

/-- The number of connections on which an answer is outstanding. -/
def Client.activeCount (c : Client Unit) : Nat := c.conns.countP fun conn => 0 < conn.cursorActive

/-- The connection that was read from is closed, the others are as they were. -/
theorem Client.Awaiting.closed (hc : c.Awaiting) (hs : s.isPurging = c.isPurging ∧ s.memc = c.memc)
    (h : Closed s t) {result : Result} :
    Client.Awaiting { c with toShared := { t.toShared with result := result },
                             conns := c.conns.set k t.toConn } where
  isPurging := h.isPurging.trans (hs.1.trans hc.isPurging)
  text := (congrArg _ h.flags).trans ((congrArg (·.flags.binaryProtocol) hs.2).trans hc.text)
  readBuffer conn hconn := by
    rcases mem_or_eq_of_mem_set hconn with hold | rfl
    · exact hc.readBuffer conn hold
    · exact h.readBuffer
  active conn hconn hactive := by
    rcases mem_or_eq_of_mem_set hconn with hold | rfl
    · exact hc.active conn hold hactive
    · exact absurd (h.cursorActive ▸ hactive) (Nat.lt_irrefl 0)

theorem Client.Sent.closed (hsent : c.Sent) (hk : c.conns[k]? = some s.toConn) (h : Closed s t)
    {shared : Shared} :
    Client.Sent { c with toShared := shared, conns := c.conns.set k t.toConn } := by
  obtain ⟨j, conn, hj, hcopied⟩ := hsent
  by_cases hjk : k = j
  · subst hjk
    rw [hk] at hj
    cases hj
    exact ⟨k, t.toConn, List.getElem?_set_self (List.getElem?_eq_some_iff.mp hk).1, h.copied ▸ hcopied⟩
  · exact ⟨j, conn, (List.getElem?_set_ne hjk).trans hj, hcopied⟩

/-- The server that hangs up is asked once for every connection. -/
theorem fetchLoop_sink {fuel : Nat} (f : Fetch) (hc : c.Awaiting) (hsent : c.Sent)
    (hfuel : c.activeCount < fuel) :
    Ensures (fetchLoop sink (fun _ _ => .ok []) fuel f) c fun _ c' => c'.Sent := by
  induction fuel generalizing f c with
  | zero => exact absurd hfuel (Nat.not_lt_zero _)
  | succ fuel ih =>
    obtain ⟨polled, hscan⟩ := scanServers_sink 0 hc.readBuffer []
    have hnone : polled.find? (fun k => decide (k ∈ ([] : List Nat))) = none := by simp
    simp only [fetchLoop, memcachedIoGetReadableServer, ensures_bind, ensures_get, hscan, hnone]
    refine ensures_ite (fun _ => ensures_pure.mpr ?_) fun _ => ensures_pure.mpr (ensures_pure.mpr hsent)
    cases hidx : c.conns.findIdx? fun conn => 0 < conn.cursorActive with
    | none => exact ensures_pure.mpr hsent
    | some k =>
      obtain ⟨hlt, hactive, -⟩ := List.findIdx?_eq_some_iff_getElem.mp hidx
      have hconn : c.conns[k]? = some c.conns[k] := List.getElem?_eq_getElem hlt
      have hmem := getElem_mem hlt
      have hpos : 0 < c.conns[k].cursorActive := by simpa using hactive
      have hcount : 0 < c.activeCount := countP_pos_iff.mpr ⟨_, hmem, hactive⟩
      refine ensures_bind.mpr (onServer_ensures hconn (responseInto_ensures ?_))
      refine (memcachedResponse_sink (by decide) (s := ⟨c.conns[k], { c.toShared with result := f.result }⟩)
        (hc.active _ hmem hpos) hc.isPurging hc.text).mono fun rc t ht => ?_
      obtain ⟨rfl, hclosed⟩ := ht
      refine ih _ (hc.closed ⟨rfl, rfl⟩ hclosed) (hsent.closed hconn hclosed) ?_
      show (c.conns.set k t.toConn).countP _ < fuel
      rw [countP_set hlt, if_pos hactive, if_neg (by simp [hclosed.cursorActive])]
      unfold Client.activeCount at hfuel hcount
      omega

theorem activeCount_le_sum {conns : List (Conn Unit)} :
    conns.countP (fun conn => 0 < conn.cursorActive) ≤
      (conns.map fun conn => conn.readBuffer.length + sink.supply conn.net + conn.cursorActive).sum := by
  induction conns with
  | nil => exact Nat.le_refl 0
  | cons conn conns ih =>
    rw [countP_cons, map_cons, sum_cons]
    split
    · next hactive =>
      have hpos : 0 < conn.cursorActive := by simpa using hactive
      omega
    · omega

theorem memcachedFetch_sink (hudp : c.memc.flags.useUdp = false) (hc : c.Awaiting) (hsent : c.Sent) :
    Ensures (memcachedFetch sink (fun _ _ => .ok []) 0) c fun _ c' => c'.Sent := by
  simp only [memcachedFetch, memcachedFetchResult, ensures_bind, ensures_get, hudp, Bool.false_eq_true, if_false]
  refine (fetchLoop_sink _ hc hsent (Nat.lt_succ_of_le activeCount_le_sum)).mono fun r d hd => ?_
  refine ensures_ite (fun _ => ensures_pure.mpr ?_) fun _ => ensures_pure.mpr ?_
  · exact ensures_bind.mpr (ensures_modify.mpr (ensures_pure.mpr hd))
  · exact ensures_bind.mpr (ensures_modify.mpr (ensures_pure.mpr hd))

/-- Every call that sends writes to the server that takes everything. -/
theorem KeyCall.run_sink {call : KeyCall} (htext : memc.flags.binaryProtocol = false)
    (hroute : ∀ key ∈ call.routingKeys, memc.Routable H key) (h : call.Sends memc) :
    Ensures (call.run sink H (fun _ => ⟨0, 0⟩) fun _ _ => .ok []) (sinkClient memc) fun _ c' => c'.Sent := by
  cases call with
  | item call =>
    exact ensures_map.mpr (ItemCall.run_sink htext (hroute _ mem_cons_self) h)
  | get groupKey key =>
    refine ensures_map.mpr ((mgetByKeyReal_sink htext h.1.2 hroute).bind fun rc d hd => ?_)
    obtain ⟨hawaiting, hsent, hflags⟩ := hd
    refine ensures_ite (fun _ => ensures_bind.mpr (ensures_get.mpr (ensures_pure.mpr hsent))) fun _ => ?_
    exact (memcachedFetch_sink (by rw [hflags, h.1.2.1]) hawaiting hsent).bind fun r e he => ensures_pure.mpr he
  | mget groupKey keys =>
    exact (mgetByKeyReal_sink htext h.1.2 hroute).mono fun _ d hd => hd.2.1

end Calls

end LM
