import LibMemcached.Proof.Outgoing
import LibMemcached.Proof.Stream

/-!
# Commands on one server

The bytes of a command end with the mark of its request, and a function that works on one server keeps the client's
settings and the bound of the write buffer (`Kept`), whatever it writes.
-/

namespace LM

open List

variable {κ : Type} {K : Kernel κ}

/-! ## The bytes of a command -/

theorem zipIdx_ends (r : Request) (bytes : Bytes) (i : Nat) : ((bytes.zipIdx i).map fun (b, j) =>
        (⟨b, if j + 1 = i + bytes.length then some r else none⟩ : OutByte)).filterMap (·.ends) =
      if bytes = [] then [] else [r] := by
  induction bytes generalizing i with
  | nil => rfl
  | cons b bytes ih =>
    have := ih (i + 1)
    rw [Nat.add_right_comm] at this
    rw [zipIdx_cons, map_cons, length_cons, ← Nat.add_assoc]
    cases bytes with
    | nil => simp
    | cons b' bytes => simpa using this

theorem requestsOf_command {r : Request} (hne : r.bytes ≠ []) : requestsOf (command r) = [r] := by
  have := zipIdx_ends r r.bytes 0
  simpa [requestsOf, command, hne] using this

theorem length_command {r : Request} : (command r).length = r.bytes.length := by simp [command]

theorem pieces_flatten {vector : List Bytes} {cells : List OutByte}
    (h : cells.length = vector.flatten.length) : (pieces vector cells).flatten = cells := by
  induction vector generalizing cells with
  | nil => exact (length_eq_zero_iff.mp h).symm
  | cons v vs ih =>
    rw [flatten_cons, length_append] at h
    rw [pieces, flatten_cons, ih (by rw [length_drop]; omega), take_append_drop]

/-! ## What is kept -/

/-- What a call on one server keeps of the client and of the write buffer. -/
structure Kept (s s' : St κ) : Prop where
  memc : SameSettings s.memc s'.memc
  isPurging : s'.isPurging = s.isPurging
  purgeLog : s.purgeLog <+: s'.purgeLog
  writeBuffer : s.writeBuffer.length ≤ maxBuffer → s'.writeBuffer.length ≤ maxBuffer

namespace Kept

variable {s s' s'' : St κ}

theorem rfl : Kept s s := ⟨.rfl, Eq.refl _, prefix_rfl, id⟩

theorem trans (h : Kept s s') (h' : Kept s' s'') : Kept s s'' :=
  ⟨h.memc.trans h'.memc, h'.isPurging.trans h.isPurging, h.purgeLog.trans h'.purgeLog,
    fun hb => h'.writeBuffer (h.writeBuffer hb)⟩

theorem flags (h : Kept s s') : s'.memc.flags = s.memc.flags := by rw [h.memc]

end Kept

theorem Writes.kept {s s' : St κ} (h : Writes K s s') : Kept s s' :=
  ⟨h.memc, h.isPurging, h.purgeLog, h.writeBuffer⟩

end LM
