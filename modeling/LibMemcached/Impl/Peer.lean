import LibMemcached.Impl.Net

/-!
# A peer that can be run

A `Kernel` that computes: a server that answers each command by `reply` as soon as its last byte has
arrived, behind a socket whose next results can be given in advance. Without any given result `send`
accepts everything, `recv` delivers all that fits and `poll` reports readiness.
-/

namespace LM

/-- The bytes of the answer to a command. -/
def answerCells (id : Nat) (bytes : Bytes) : List InByte :=
  bytes.zipIdx.map fun (b, i) => ⟨b, id, i + 1 == bytes.length⟩

structure Peer where
  /-- The next results of `send`. -/
  sends : List SendResult := []
  /-- The next errors of `recv`. -/
  refusals : List Errno := []
  /-- The next results of `poll`. -/
  polls : List PollResult := []
  /-- What the server sent and the client did not receive yet. -/
  pending : List InByte := []

namespace Peer

variable (reply : Request → Bytes)

/-- The server has received `cells`. -/
def receive (p : Peer) (cells : List OutByte) : Peer :=
  { p with pending := p.pending ++ (requestsOf cells).flatMap fun r => answerCells r.id (reply r) }

def send (p : Peer) (cells : List OutByte) : SendResult × Peer :=
  match p.sends with
  | [] => (.sent cells.length, p.receive reply cells)
  | .sent n :: rest =>
    let n := min (max n 1) cells.length
    (.sent n, { p with sends := rest }.receive reply (cells.take n))
  | .error e :: rest => (.error e, { p with sends := rest })

def recv (p : Peer) (cap : Nat) : RecvResult × Peer :=
  match p.refusals with
  | e :: rest => (.error e, { p with refusals := rest })
  | [] =>
    if p.pending = [] then (.eof, p)
    else (.data (p.pending.take cap), { p with pending := p.pending.drop cap })

def poll (p : Peer) : PollResult × Peer :=
  match p.polls with
  | [] => (.ready, p)
  | r :: rest => (r, { p with polls := rest })

theorem send_sends_length (p : Peer) (cells : List OutByte) :
    (p.send reply cells).2.sends.length ≤ p.sends.length ∧ (p.send reply cells).2.refusals = p.refusals := by
  unfold send
  split <;> simp_all [receive]

theorem recv_lengths (p : Peer) (cap : Nat) :
    (p.recv cap).2.sends = p.sends ∧ (p.recv cap).2.refusals.length ≤ p.refusals.length ∧
      (p.recv cap).2.pending.length ≤ p.pending.length := by
  unfold recv
  split
  · simp_all
  · split <;> simp

theorem poll_lengths (p : Peer) : (p.poll).2.sends = p.sends ∧ (p.poll).2.refusals = p.refusals ∧
      (p.poll).2.pending = p.pending := by
  unfold poll
  split <;> simp

end Peer

/-- The system calls of a peer. -/
def peer (reply : Request → Bytes) : Kernel Peer where
  send := Peer.send reply
  recv := Peer.recv
  poll p _ _ := p.poll
  connect _ b p := (none, b, { p with pending := [] })
  close p := p
  garbage _ n := List.replicate n 0
  patience p := p.sends.length + p.refusals.length
  supply p := p.pending.length
  connect_isFatal _ _ _ _ h := nomatch h
  garbage_length _ n := List.length_replicate
  send_sent p cells n h hne := by
    have hpos := List.length_pos_iff.mpr hne
    unfold Peer.send at h
    split at h <;> simp only [SendResult.sent.injEq, reduceCtorEq] at h <;> omega
  recv_data p cap cells h hcap := by
    unfold Peer.recv at h
    split at h
    · cases h
    · split at h
      · cases h
      · rename_i hne
        cases h
        have hpos := List.length_pos_iff.mpr hne
        refine ⟨List.ne_nil_of_length_pos ?_, ?_⟩ <;> simp only [List.length_take] <;> omega
  recv_supply p cap cells h := by
    unfold Peer.recv at h ⊢
    split at h
    · cases h
    · split at h
      · cases h
      · rename_i hrefuse hne
        cases h
        simp only [hrefuse, hne, if_false, List.length_drop, List.length_take]
        omega
  recv_supply_le p cap := (p.recv_lengths cap).2.2
  poll_supply p _ _ := Nat.le_of_eq (congrArg _ p.poll_lengths.2.2)
  send_refused p cells e h _ := by
    unfold Peer.send at h ⊢
    split at h <;> simp_all
  recv_refused p cap e h _ := by
    unfold Peer.recv at h ⊢
    split at h
    · simp_all
    · split at h <;> cases h
  send_patience p cells := by
    obtain ⟨hs, hr⟩ := p.send_sends_length reply cells
    show _ + _ ≤ _ + _
    rw [hr]
    omega
  recv_patience p cap := by
    obtain ⟨hs, hr, -⟩ := p.recv_lengths cap
    show _ + _ ≤ _ + _
    rw [hs]
    omega
  poll_patience p _ _ := by
    obtain ⟨hs, hr, -⟩ := p.poll_lengths
    exact Nat.le_of_eq (by rw [hs, hr])
  close_patience _ := Nat.le_refl _

/-- A kernel that delivers a fixed stream, at most `size + 1` bytes at a time. -/
def drip (size : Nat) : Kernel (List InByte) where
  send cells out := (.sent out.length, cells)
  recv cells cap :=
    if cells = [] then (.eof, [])
    else (.data (cells.take (min (size + 1) cap)), cells.drop (min (size + 1) cap))
  poll cells _ _ := (.ready, cells)
  connect _ b cells := (none, b, cells)
  close cells := cells
  garbage _ n := List.replicate n 0
  patience _ := 0
  supply := List.length
  connect_isFatal _ _ _ _ h := nomatch h
  garbage_length _ n := List.length_replicate
  send_sent _ out n h hne := by
    cases h
    exact ⟨List.length_pos_iff.mpr hne, Nat.le_refl _⟩
  recv_data cells cap data h hcap := by
    split at h
    · cases h
    · rename_i hne
      cases h
      have hpos := List.length_pos_iff.mpr hne
      refine ⟨List.ne_nil_of_length_pos ?_, ?_⟩ <;> simp only [List.length_take] <;> omega
  recv_supply cells cap data h := by
    split at h
    · cases h
    · rename_i hne
      cases h
      simp only [hne, if_false, List.length_drop, List.length_take]
      omega
  recv_supply_le cells cap := by
    split
    · exact Nat.zero_le _
    · simp
  poll_supply _ _ _ := Nat.le_refl _
  send_refused _ _ _ h := nomatch h
  recv_refused cells cap e h := by split at h <;> cases h
  send_patience _ _ := Nat.le_refl _
  recv_patience _ _ := Nat.le_refl _
  poll_patience _ _ _ := Nat.le_refl _
  close_patience _ := Nat.le_refl _

/-- A kernel that takes every byte, answers each command by `reply`, and delivers at most `size + 1` bytes
at a time. -/
def answering (size : Nat) (reply : Request → Bytes) : Kernel (List InByte) :=
  { drip size with
    send := fun cells out =>
      (.sent out.length, cells ++ (requestsOf out).flatMap fun r => answerCells r.id (reply r))
    connect := fun _ b _ => (none, b, [])
    connect_isFatal := fun _ _ _ _ h => nomatch h
    send_sent := fun _ out n h hne => by
      cases h
      exact ⟨List.length_pos_iff.mpr hne, Nat.le_refl _⟩
    send_refused := fun _ _ _ h => nomatch h
    send_patience := fun _ _ => Nat.le_refl _ }

/-- A kernel that takes every byte and answers nothing: who reads finds the connection closed. -/
def sink : Kernel Unit where
  send _ out := (.sent out.length, ())
  recv _ _ := (.eof, ())
  poll _ _ _ := (.ready, ())
  connect _ b _ := (none, b, ())
  close _ := ()
  garbage _ n := List.replicate n 0
  patience _ := 0
  supply _ := 0
  connect_isFatal _ _ _ _ h := nomatch h
  garbage_length _ n := List.length_replicate
  send_sent _ out n h hne := by
    cases h
    exact ⟨List.length_pos_iff.mpr hne, Nat.le_refl _⟩
  recv_data _ _ _ h := nomatch h
  recv_supply _ _ _ h := nomatch h
  recv_supply_le _ _ := Nat.le_refl _
  poll_supply _ _ _ := Nat.le_refl _
  send_refused _ _ _ h := nomatch h
  recv_refused _ _ _ h := nomatch h
  send_patience _ _ := Nat.le_refl _
  recv_patience _ _ := Nat.le_refl _
  poll_patience _ _ _ := Nat.le_refl _
  close_patience _ := Nat.le_refl _

end LM
