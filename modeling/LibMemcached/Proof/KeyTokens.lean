import LibMemcached.Proof.Sink

/-!
# Which keys can be sent

The calls that send a key test it with `memcached_key_test`, without the namespace, and
`memcached_exist_by_key` does not test it at all. With key verification on, every line that is written has
the words that were meant exactly if the keys fit behind the namespace, and the key of an `exist` is a
token (`key_tokens`).
-/

namespace LM

open Memcached

variable {κ : Type} {K : Kernel κ} {H : Hashkit.Hashes} {memc : Memcached} {k : Nat} {item : Item}
  {verb : Verb} {groupKey : Bytes}

/-! ## Calls that do not send -/

/-- Something was written to a connection. -/
def Client.Writes (c c' : Client κ) : Prop :=
  ∃ k : Nat, (c'.conns[k]?).map Conn.copied ≠ (c.conns[k]?).map Conn.copied

section Silent

variable {α : Type} {c d : Client κ} {env : Nat → Env}

theorem onServer_conns {m : Act κ α} (h : ∀ s : St κ, Always m s fun _ s' => s'.toConn = s.toConn) :
    Always (onServer k m) c fun _ c' => c'.conns = c.conns := by
  refine onServer_always fun conn hk => (h _).mono fun _ t ht => ?_
  show c.conns.set k t.toConn = c.conns
  obtain ⟨hlt, rfl⟩ := List.getElem?_eq_some_iff.mp hk
  rw [ht]
  exact List.set_getElem_self hlt

theorem hashkit_regenForAutoEject {now : Nat} : (memc.regenForAutoEject H now).hashkit = memc.hashkit := by
  unfold regenForAutoEject
  split <;> [split <;> simp; rfl]

theorem serverKey_conns (x : Nat) (key : Bytes) :
    Always (serverKey H (env x) key) d fun _ e => e.conns = d.conns ∧ e.memc.flags = d.memc.flags ∧
      e.memc.hashkit = d.memc.hashkit := by
  refine .onClient_bind ?_
  split
  · exact .failure
  · exact (Always.modify (Q := fun _ e => e.conns = d.conns ∧ e.memc.flags = d.memc.flags ∧
      e.memc.hashkit = d.memc.hashkit)
      ⟨rfl, flags_regenForAutoEject, hashkit_regenForAutoEject⟩).bind fun _ _ he => .pure he

theorem sendItem_unfit (htext : d.memc.flags.binaryProtocol = false) (hfits : storageFits item = false) :
    Always (sendItem K k item verb) d fun _ e => e.conns = d.conns := by
  refine .get_bind (.ite (fun hbinary => ?_) fun _ => onServer_conns fun s => ?_)
  · rw [htext] at hbinary
    cases hbinary
  · rw [memcachedSendAscii, hfits]
    exact (Always.modify (Q := fun _ t => t.toConn = s.toConn) rfl).bind fun _ _ ht => .pure ht

section

variable (hc : c.AtRest) (htext : c.memc.flags.binaryProtocol = false)
include hc htext

theorem memcachedSend_silent
    (h : ¬((c.memc.hashkit.key.isSome && !verb.canBeEncrypted) = false ∧ (c.memc.encrypted item.value).isSome = true ∧ storageFits (c.memc.sealed item) = true)) :
    Always (memcachedSend K H (env 0) groupKey item verb) c fun _ c' => c'.conns = c.conns := by
  refine (initializeQuery_opened hc).bind fun rc d hd => .ite (fun _ => .pure hd.1.conns) fun _ => ?_
  have hmemc : (d.memc.keyTest item.key).2.flags = c.memc.flags ∧
      (d.memc.keyTest item.key).2.hashkit = c.memc.hashkit := by
    rw [SameSettings.keyTest d.memc item.key, hd.1.memc]
    exact ⟨rfl, rfl⟩
  refine .onClient_bind (.ite (fun _ => .get_bind (.pure hd.1.conns)) fun _ => ?_)
  refine (serverKey_conns 0 groupKey).bind fun k e he => .get_bind ?_
  have hconns : e.conns = c.conns := he.1.trans hd.1.conns
  have hkey : e.memc.hashkit.key = c.memc.hashkit.key := by rw [he.2.2, hmemc.2]
  have hencrypted : e.memc.encrypted item.value = c.memc.encrypted item.value := by
    rw [encrypted, encrypted, hkey]
  rw [hkey, hencrypted]
  refine .ite (fun _ => .get_bind (.set_bind (.pure hconns))) fun hverb => .ite (fun _ => .pure hconns) fun _ => ?_
  split
  · exact .failure
  · rename_i value hvalue
    rw [sealed, hvalue, Option.getD_some] at h
    have hfits : storageFits { item with value := value } = false := by
      rw [← Bool.not_eq_true]
      exact fun hfits => h ⟨by simpa using hverb, rfl, hfits⟩
    exact (sendItem_unfit (by rw [he.2.1, hmemc.1, htext]) hfits).mono fun _ f hf => hf.trans hconns

/-- An initial value is refused in the text protocol: nothing is written. -/
theorem incrementDecrement_initial {isIncr : Bool} {key : Bytes} {offset : UInt64}
    {initial : UInt64 × UInt32} :
    Always (incrementDecrement K H (env 0) isIncr groupKey key offset (some initial)) c
      fun _ c' => c'.conns = c.conns := by
  refine (initializeQuery_opened hc).bind fun rc d hd => .ite (fun _ => .pure hd.1.conns) fun _ => ?_
  have hflags : (d.memc.keyTest key).2.flags = c.memc.flags := by
    rw [SameSettings.keyTest d.memc key, hd.1.memc]
  refine .get_bind (.ite (fun _ => ?_) fun _ => ?_)
  · exact .onClient_bind (.pure hd.1.conns)
  refine .onClient_bind (.ite (fun _ => .get_bind (.pure hd.1.conns)) fun _ => ?_)
  refine (serverKey_conns 0 groupKey).bind fun k e he => .get_bind ?_
  have hbinary : e.memc.flags.binaryProtocol = false := by rw [he.2.1, hflags, htext]
  simp only [hbinary, Bool.false_eq_true, if_false]
  refine .onClient_bind ((onServer_conns fun s => ?_).mono fun _ f hf => hf.trans (he.1.trans hd.1.conns))
  intro a s' hrun
  cases hrun
  rfl

end

theorem KeyCall.run_silent (poller : Poller κ) {call : KeyCall} (hc : c.AtRest)
    (htext : c.memc.flags.binaryProtocol = false) (h : ¬call.Sends c.memc) :
    Always (call.run K H env poller) c fun _ c' => c'.conns = c.conns := by
  by_cases htested : call.Tested c.memc
  · cases call with
    | item call =>
      cases call with
      | store verb groupKey item =>
        exact .map (.map (memcachedSend_silent hc htext fun hsends => h ⟨htested, hsends⟩))
      | arith isIncr groupKey key offset initial =>
        cases initial with
        | none => exact absurd ⟨htested, rfl⟩ h
        | some initial => exact .map (incrementDecrement_initial hc htext)
      | _ => exact absurd ⟨htested, trivial⟩ h
    | _ => exact absurd ⟨htested, trivial⟩ h
  · exact (KeyCall.run_called poller call hc).mono fun _ _ hd => (hd.refused htested).1

end Silent

/-! ## Every call -/

theorem Client.Sent.writes {c : Client Unit} (h : c.Sent) : (sinkClient memc).Writes c := by
  obtain ⟨k, conn, hk, hcopied⟩ := h
  refine ⟨k, fun heq => ?_⟩
  rw [hk] at heq
  obtain ⟨fresh, hfresh, hempty⟩ := Option.map_eq_some_iff.mp heq.symm
  obtain rfl := List.eq_of_mem_replicate (List.mem_of_getElem? hfresh)
  exact hcopied hempty.symm

/-- Whatever the servers and the surroundings do, a call that writes anything writes well-formed command
lines. -/
def KeyCall.Safe (H : Hashkit.Hashes) (memc : Memcached) (call : KeyCall) : Prop :=
  ∀ (κ : Type) (K : Kernel κ) (poller : Poller κ) (env : Nat → Env) (c : Client κ), c.memc = memc →
    c.AtRest → Always (call.run K H env poller) c fun _ c' => c.Writes c' → call.WellFormed memc

/-- With key verification on, a call is safe if its keys fit behind the namespace, or if it does not get
as far as sending them. Where all keys are routed to a server there is, it is safe only then. -/
theorem key_tokens (H : Hashkit.Hashes) (memc : Memcached) (htext : memc.flags.binaryProtocol = false)
    (hverify : memc.flags.verifyKey = true) (hns : memc.NamespaceAccepted) (call : KeyCall) :
    ((call.Sends memc → call.Fits memc) → call.Safe H memc) ∧
      ((∀ key ∈ call.routingKeys, memc.Routable H key) → call.Safe H memc →
        call.Sends memc → call.Fits memc) := by
  have hgraph := hns.graphic htext
  constructor
  · rintro hfits κ K poller env c rfl hc
    by_cases hsends : call.Sends c.memc
    · exact fun _ _ _ _ => (hsends.fits_iff htext hverify hgraph).mp (hfits hsends)
    · refine (call.run_silent poller hc htext hsends).mono fun _ c' hconns hwrites => ?_
      obtain ⟨k, hk⟩ := hwrites
      exact absurd (by rw [hconns]) hk
  · intro hroute hsafe hsends
    obtain ⟨rc, c', hrun, hsent⟩ := call.run_sink htext hroute hsends
    exact (hsends.fits_iff htext hverify hgraph).mpr
      (hsafe Unit sink _ _ (sinkClient memc) rfl (sinkClient_atRest memc) rc c' hrun hsent.writes)

/-- One host, a namespace, and key verification. -/
def Memcached.verifying (namespace_ : Option Bytes) : Memcached :=
  { servers := [.ofServer (letterHost 'a')], flags.verifyKey := true, namespace_ := namespace_ }

theorem Memcached.routable_verifying (namespace_ : Option Bytes) (key : Bytes) :
    (verifying namespace_).Routable fnvHashes key := ⟨0, Nat.zero_lt_one, rfl⟩

theorem key_tokens_set :
    KeyCall.Safe fnvHashes (.verifying (some [110]))
      (.item (.store .set [107] { key := [107], value := [] })) := by
  have hns : (verifying (some [110])).NamespaceAccepted := by
    rintro ns ⟨⟩
    decide
  refine (key_tokens _ _ rfl rfl hns _).1 fun _ => ?_
  exact List.forall_mem_singleton.mpr (by decide)

/-- Behind the longest namespace a key of 250 bytes makes a token of 377, and the key of an `exist` can
end the line and bring its own command. -/
theorem key_tokens_fail :
    let long := verifying (some (List.replicate 127 110))
    let set : KeyCall := .item (.store .set [97] { key := List.replicate 250 107, value := [] })
    let short := verifying none
    let exist : KeyCall := .item (.exist [97] (ascii "a 0 0 1\r\nx\r\ndelete b"))
    (long.setNamespace long.namespace_).1 = .success ∧
      ¬set.Safe fnvHashes long ∧ ¬exist.Safe fnvHashes short ∧
      Ensures (exist.run sink fnvHashes (fun _ => ⟨0, 0⟩) fun _ _ => .ok []) (sinkClient short)
        fun _ c' => (c'.conns.map fun conn => conn.accepted.map (·.byte)) =
          [ascii "add a 0 0 1\r\nx\r\ndelete b 0 2678400 0\r\n\r\n"] := by
  intro long set short exist
  have hunsafe (memc : Memcached) (call : KeyCall) (key : Bytes) (hkey : key ∈ call.keys)
      (htoken : ¬IsToken (memc.keyNamespace ++ key))
      (hrun : Ensures (call.run sink fnvHashes (fun _ => ⟨0, 0⟩) fun _ _ => .ok [])
        (sinkClient memc) fun _ c' => c'.Sent) : ¬call.Safe fnvHashes memc := by
    intro hsafe
    obtain ⟨rc, c', hrun, hsent⟩ := hrun
    have hformed := hsafe Unit sink _ _ (sinkClient memc) rfl (sinkClient_atRest memc) rc c' hrun hsent.writes
    exact htoken (hformed.1 key hkey)
  refine ⟨by decide +kernel, ?_, ?_, by decide +kernel⟩
  · refine hunsafe long set _ List.mem_cons_self (fun h => absurd h.length (by decide +kernel)) ?_
    refine KeyCall.run_sink rfl (fun key _ => routable_verifying _ key) ⟨⟨by decide, ?_⟩, rfl, rfl, by decide +kernel⟩
    exact ⟨by decide +kernel, by decide +kernel, fun _ _ => by decide +kernel⟩
  · refine hunsafe short exist _ List.mem_cons_self (fun h => absurd h.graphic (by decide +kernel)) ?_
    exact KeyCall.run_sink rfl (fun key _ => routable_verifying _ key) ⟨⟨by decide, rfl⟩, trivial⟩

end LM
