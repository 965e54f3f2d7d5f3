import LibMemcached.Impl.Handler

/-!
# Packets in the input buffer

What the loop of `memcached_binary_protocol_process_data` does with a complete packet at its header
(`binaryLoop_step`): the packet is executed, and the loop goes on with the bytes after it, wherever
it has moved them. The header's fields are those of the packet (`RequestHeader.ofBytes_append`).
-/

namespace LM

open List RequestHeader

variable {σ : Type} {packet rest buffer junk : Bytes} {execute : Bytes → Serving σ → Handled σ}
  {header : Nat} {s s' : Serving σ} {a : Bytes} (fuel : Nat) (endptr : Option Nat)

/-- A packet that is as long as its header says. -/
structure Complete (packet : Bytes) : Prop where
  header : headerLength ≤ packet.length
  total : (ofBytes packet).total = packet.length

instance (packet : Bytes) : Decidable (Complete packet) :=
  decidable_of_iff (headerLength ≤ packet.length ∧
    (ofBytes packet).total = packet.length) ⟨fun h => ⟨h.1, h.2⟩, fun h => ⟨h.1, h.2⟩⟩

theorem slice_middle (a b c : Bytes) : slice (a ++ (b ++ c)) a.length b.length = b := by
  rw [slice, drop_left, take_left]

theorem slice_append (b : Bytes) {offset len : Nat} (h : offset + len ≤ a.length) :
    slice (a ++ b) offset len = slice a offset len := by
  rw [slice, slice, drop_append_of_le_length (by omega),
    take_append_of_le_length (by rw [length_drop]; omega)]

theorem RequestHeader.ofBytes_append (h : headerLength ≤ a.length) (b : Bytes) :
    ofBytes (a ++ b) = ofBytes a := by
  have h24 : 24 ≤ a.length := h
  simp only [ofBytes, slice_append b (show 2 + 2 ≤ a.length by omega),
    slice_append b (show 8 + 4 ≤ a.length by omega), slice_append b (show 12 + 4 ≤ a.length by omega),
    slice_append b (show 16 + 8 ≤ a.length by omega), getD_eq_getElem?_getD,
    List.getElem?_append_left (show 0 < a.length by omega),
    List.getElem?_append_left (show 1 < a.length by omega)]

theorem Complete.total_append (h : Complete packet) (b : Bytes) :
    (ofBytes (packet ++ b)).total = packet.length := by
  rw [ofBytes_append h.header, h.total]

theorem Complete.length_pos (h : Complete packet) : 0 < packet.length :=
  Nat.lt_of_lt_of_le (by decide) h.header

section

variable (hp : Complete packet) (hb : buffer.drop header = packet ++ (rest ++ junk))
include hp hb

theorem binaryLoop_step {rv : Status} (hx : execute (packet ++ (rest ++ junk)) s = (rv, s'))
    (h1 : rv ≠ .einternal) (h2 : rv ≠ .notSupported) :
    ∃ buffer' header' junk', buffer'.drop header' = rest ++ junk' ∧
      binaryLoop execute (fuel + 1) buffer header (packet.length + rest.length) endptr s =
        binaryLoop execute fuel buffer' header' rest.length (some header') s' := by
  have hlen : packet.length + rest.length - packet.length = rest.length := by omega
  have hguard : headerLength ≤ packet.length + rest.length ∧
      packet.length ≤ packet.length + rest.length := ⟨Nat.le_add_right_of_le hp.header, by omega⟩
  have hafter : buffer.drop (header + packet.length) = rest ++ junk := by
    rw [← drop_drop, hb, drop_left]
  -- The loop once its tests are decided.
  have key : binaryLoop execute (fuel + 1) buffer header (packet.length + rest.length) endptr s =
      if rest.length = 0 then binaryLoop execute fuel buffer header 0 (some header) s'
      else if (header + packet.length) % 8 = 0 then
        binaryLoop execute fuel buffer (header + packet.length) rest.length
          (some (header + packet.length)) s' else
        binaryLoop execute fuel
          (slice buffer (header + packet.length) rest.length ++ buffer.drop rest.length) 0
          rest.length (some 0) s' := by
    rw [binaryLoop, hb, hp.total_append, if_pos hguard, hx, hlen]
    cases rv <;> first | rfl | exact absurd rfl h1 | exact absurd rfl h2
  rw [key]
  by_cases h0 : rest.length = 0
  · rw [if_pos h0, h0]
    obtain rfl : rest = [] := length_eq_zero_iff.mp h0
    exact ⟨buffer, header, packet ++ junk, by simpa using hb, rfl⟩
  · rw [if_neg h0]
    by_cases h8 : (header + packet.length) % 8 = 0
    · rw [if_pos h8]
      exact ⟨buffer, header + packet.length, junk, hafter, rfl⟩
    · rw [if_neg h8]
      refine ⟨_, 0, buffer.drop rest.length, ?_, rfl⟩
      rw [slice, hafter, take_left, drop_zero]

theorem binaryLoop_end (hx : execute (packet ++ (rest ++ junk)) s = (.einternal, s')) :
    binaryLoop execute (fuel + 1) buffer header (packet.length + rest.length) endptr s =
      ⟨.error, buffer, packet.length + rest.length, some header, s'⟩ := by
  rw [binaryLoop, hb, hp.total_append,
    if_pos ⟨Nat.le_add_right_of_le hp.header, Nat.le_add_right _ _⟩, hx]

theorem binaryLoop_pause (hx : execute (packet ++ (rest ++ junk)) s = (.notSupported, s')) :
    binaryLoop execute (fuel + 1) buffer header (packet.length + rest.length) endptr s =
      ⟨.pause, buffer, packet.length + rest.length, endptr, s'⟩ := by
  rw [binaryLoop, hb, hp.total_append,
    if_pos ⟨Nat.le_add_right_of_le hp.header, Nat.le_add_right _ _⟩, hx]

end

/-- A single packet: its handler gets the packet and the memory behind it, and nothing is left. -/
theorem binaryProcessData_single (stale : Bytes) (s : Serving σ) (hp : Complete packet)
    (hm : packet.head? = some binaryReq) :
    let w := binaryProcessData execute (packet ++ stale) packet.length s
    w.serving = (execute (packet ++ stale) s).2 ∧
      ((execute (packet ++ stale) s).1 ≠ .einternal → (execute (packet ++ stale) s).1 ≠ .notSupported →
        w.event = .read ∧ w.length = 0) := by
  intro w
  have hmagic : (packet ++ stale).getD 0 0 = binaryReq := by
    obtain ⟨tail, ht⟩ := List.head?_eq_some_iff.mp hm
    rw [ht]
    rfl
  obtain ⟨fuel, hfuel⟩ : ∃ n, packet.length = n + 1 :=
    ⟨packet.length - 1, by have := hp.length_pos; omega⟩
  have hw : w = binaryLoop execute (fuel + 1) (packet ++ stale) 0 (packet.length + ([] : Bytes).length)
      none s := by
    change binaryProcessData _ _ _ _ = _
    rw [binaryProcessData, if_neg (not_not_intro hmagic), length_nil, Nat.add_zero]
    exact congrArg (fun n => binaryLoop execute n _ _ _ _ _) hfuel
  cases hx : execute (packet ++ stale) s with
  | mk rv s' =>
    have hx' : execute (packet ++ ([] ++ stale)) s = (rv, s') := hx
    have hb : (packet ++ stale).drop 0 = packet ++ ([] ++ stale) := rfl
    by_cases h1 : rv = .einternal
    · subst h1
      rw [hw, binaryLoop_end fuel none hp hb hx']
      exact ⟨rfl, fun h => absurd rfl h⟩
    · by_cases h2 : rv = .notSupported
      · subst h2
        rw [hw, binaryLoop_pause fuel none hp hb hx']
        exact ⟨rfl, fun _ h => absurd rfl h⟩
      · obtain ⟨buffer', header', junk', -, hloop⟩ := binaryLoop_step fuel none hp hb hx' h1 h2
        rw [hw, hloop]
        cases fuel with
        | zero => exact ⟨rfl, fun _ _ => ⟨rfl, rfl⟩⟩
        | succ fuel =>
          rw [binaryLoop, if_neg (fun h => absurd h.1 (by decide))]
          exact ⟨rfl, fun _ _ => ⟨rfl, rfl⟩⟩

end LM
