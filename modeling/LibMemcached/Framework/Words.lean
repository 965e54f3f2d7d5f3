import Mathlib.Data.Nat.ModEq
import Mathlib.Data.Nat.Prime.Basic

/-!
# Mixing words

The steps that hash functions mix a word with lose nothing: a word added to itself, or taken exclusively or with
itself, after a shift.
-/

namespace LM.Words

variable {w k : Nat} {x : BitVec w}

/-- Only zero is its own shift to the right. -/
theorem eq_zero_of_ushiftRight (hk : 0 < k) (h : x >>> k = x) : x = 0#w := by
  have hnat : x.toNat / 2 ^ k = x.toNat := by
    rw [← Nat.shiftRight_eq_div_pow, ← BitVec.toNat_ushiftRight, h]
  have hzero : x.toNat = 0 := by
    by_contra hne
    have hlt : x.toNat / 2 ^ k < x.toNat := Nat.div_lt_self (by omega) (Nat.one_lt_two_pow (by omega))
    omega
  exact BitVec.eq_of_toNat_eq (by simpa using hzero)

theorem xor_ushiftRight_injective (hk : 0 < k) : Function.Injective fun x : BitVec w => x ^^^ x >>> k := by
  intro x y h
  have hxor : (x ^^^ y) >>> k = x ^^^ y := by
    have h : x ^^^ x >>> k = y ^^^ y >>> k := h
    rw [BitVec.ushiftRight_xor_distrib]
    calc x >>> k ^^^ y >>> k = x ^^^ (x ^^^ x >>> k) ^^^ (y ^^^ (y ^^^ y >>> k)) := by
          rw [← BitVec.xor_assoc x x, ← BitVec.xor_assoc y y]; simp
      _ = x ^^^ y := by rw [h]; ac_nf; simp
  have hzero := eq_zero_of_ushiftRight hk hxor
  calc x = x ^^^ y ^^^ y := by rw [BitVec.xor_assoc, BitVec.xor_self, BitVec.xor_zero]
    _ = y := by rw [hzero, BitVec.zero_xor]

theorem eq_of_mul_odd {m : Nat} (hm : Odd m) {y : BitVec w} (h : x.toNat * m % 2 ^ w = y.toNat * m % 2 ^ w) :
    x = y := by
  have hcoprime : Nat.Coprime (2 ^ w) m := Nat.Coprime.pow_left w (Nat.coprime_two_left.mpr hm)
  have hmod : x.toNat ≡ y.toNat [MOD 2 ^ w] := Nat.ModEq.cancel_right_of_coprime hcoprime h
  exact BitVec.eq_of_toNat_eq (Nat.ModEq.eq_of_lt_of_lt hmod x.isLt y.isLt)

theorem mul_injective {m : BitVec w} (hm : Odd m.toNat) : Function.Injective fun x : BitVec w => x * m := by
  intro x y h
  apply eq_of_mul_odd hm
  rw [← BitVec.toNat_mul, ← BitVec.toNat_mul]
  exact congrArg BitVec.toNat h

theorem add_shiftLeft_injective (hk : 0 < k) : Function.Injective fun x : BitVec w => x + x <<< k := by
  intro x y h
  have hmul (z : BitVec w) : (z + z <<< k).toNat = z.toNat * (1 + 2 ^ k) % 2 ^ w := by
    rw [BitVec.toNat_add, BitVec.toNat_shiftLeft, Nat.shiftLeft_eq, Nat.add_mod_mod, Nat.mul_add, Nat.mul_one]
  have hodd : Odd (1 + 2 ^ k) := by
    obtain ⟨k, rfl⟩ : ∃ j, k = j + 1 := ⟨k - 1, by omega⟩
    exact ⟨2 ^ k, by rw [Nat.pow_succ]; omega⟩
  apply eq_of_mul_odd hodd
  rw [← hmul, ← hmul]
  exact congrArg BitVec.toNat h

end LM.Words
