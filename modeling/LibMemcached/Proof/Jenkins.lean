import LibMemcached.Impl.Jenkins
import Mathlib.Data.Nat.Digits.Defs

/-!
# The Jenkins hash does not depend on where the key lies

A word is the sum of its shifted bytes, and a masked word the sum of those that the mask leaves (`part`). So all
three paths add the same parts to the state, for a whole block and for the last one (`absorbWords_eq`,
`tailWords_eq` and their siblings), and these are parts of the key (`absorbed_congr`). That the hash is a function
of the key's bytes (`jenkins_of_key`) is what `Hashes.jenkins` takes for granted.
-/

namespace LM.Hashkit.Jenkins

open List

variable {mem mem' : Memory} {k k' n i : Nat} {s : State} {length : Nat}

/-! ## Words from bytes -/

/-- The first `n` bytes of the word at `k`, as digits. -/
def digits (mem : Memory) (k n : Nat) : List Nat := (List.range (min n 4)).map fun i => (mem (k + i)).toNat

/-- The first `n` bytes of the word at `k`, as a number. -/
def part (mem : Memory) (k n : Nat) : UInt32 := UInt32.ofNat (Nat.ofDigits 256 (digits mem k n))

theorem digits_lt : ∀ x ∈ digits mem k n, x < 256 := by
  intro x hx
  obtain ⟨i, -, rfl⟩ := mem_map.mp hx
  exact (mem (k + i)).toNat_lt

theorem toNat_part : (part mem k n).toNat = Nat.ofDigits 256 (digits mem k n) := by
  have hlt := Nat.ofDigits_lt_base_pow_length (by decide) (@digits_lt mem k n)
  have hlength : (digits mem k n).length ≤ 4 := by simp [digits]
  have hpow : 256 ^ (digits mem k n).length ≤ 256 ^ 4 := Nat.pow_le_pow_right (by decide) hlength
  exact UInt32.toNat_ofNat_of_lt' (Nat.lt_of_lt_of_le hlt hpow)

theorem part_zero : part mem k 0 = 0 := rfl

theorem part_one : part mem k 1 = byte mem k 0 := by
  simp [part, digits, byte]

theorem part_two : part mem k 2 = byte mem k 0 + byte mem k 1 <<< 8 := by
  apply UInt32.toNat_inj.mp
  simp [part, digits, byte, range_succ, Nat.ofDigits_cons, Nat.shiftLeft_eq]
  omega

theorem part_three : part mem k 3 = byte mem k 0 + byte mem k 1 <<< 8 + byte mem k 2 <<< 16 := by
  apply UInt32.toNat_inj.mp
  simp [part, digits, byte, range_succ, Nat.ofDigits_cons, Nat.shiftLeft_eq]
  omega

theorem part_four : part mem k 4 =
    byte mem k 0 + byte mem k 1 <<< 8 + byte mem k 2 <<< 16 + byte mem k 3 <<< 24 := by
  apply UInt32.toNat_inj.mp
  simp [part, digits, byte, range_succ, Nat.ofDigits_cons, Nat.shiftLeft_eq]
  omega

theorem part_more : part mem k (n + 5) = part mem k 4 := by
  rw [part, part, digits, digits, Nat.min_eq_right (by omega), Nat.min_self]

theorem byte_add (j i : Nat) : byte mem (k + j) i = byte mem k (j + i) := by
  rw [byte, byte, Nat.add_assoc]

theorem half_eq : half mem k i = part mem (k + 2 * i) 2 := by
  simp [half, part, digits, range_succ, Nat.ofDigits_cons]

theorem word_eq : word mem k i = part mem (k + 4 * i) 4 := by
  refine congrArg UInt32.ofNat ?_
  simp [digits, range_succ, Nat.ofDigits_cons]
  omega

/-- A mask leaves the first bytes of a word. -/
theorem part_and {mask : UInt32} (hmask : mask.toNat = 2 ^ (8 * n) - 1) :
    part mem k 4 &&& mask = part mem k n := by
  apply UInt32.toNat_inj.mp
  have htake : (digits mem k 4).take n = digits mem k n := by
    rw [digits, digits, ← map_take, take_range, Nat.min_self]
  rw [UInt32.toNat_and, hmask, Nat.and_two_pow_sub_one_eq_mod, toNat_part, toNat_part, Nat.pow_mul,
    Nat.ofDigits_mod_pow_eq_ofDigits_take n (by decide) _ digits_lt, htake]

/-! ## Parts from bytes and half words -/

section

variable (x : UInt32) (j : Nat)

theorem byte_eq : byte mem k j = part mem (k + j) 1 := by
  rw [part_one, byte_add, Nat.add_zero]

theorem add_after (x a b : UInt32) : x + b + a = x + (a + b) := by
  rw [UInt32.add_assoc, UInt32.add_comm b]

theorem add_second : x + part mem (j + 1) 1 <<< 8 + part mem j 1 = x + part mem j 2 := by
  rw [part_two, part_one, part_one, byte_add, add_after]

theorem add_third : x + part mem (j + 2) 1 <<< 16 + part mem j 2 = x + part mem j 3 := by
  rw [part_three, part_two, part_one, byte_add, add_after]

theorem add_fourth : x + part mem (j + 3) 1 <<< 24 + part mem j 3 = x + part mem j 4 := by
  rw [part_four, part_three, part_one, byte_add, add_after]

theorem add_halves : part mem j 2 + part mem (j + 2) 2 <<< 16 = part mem j 4 := by
  rw [part_two, part_two, part_four, byte_add, byte_add]
  apply UInt32.toNat_inj.mp
  simp [byte, Nat.shiftLeft_eq]
  omega

end

/-! ## The paths take in the same -/

/-- The first `n` bytes from `k` on, added to the state. -/
def absorbed (mem : Memory) (k n : Nat) (s : State) : State :=
  ⟨s.a + part mem k n, s.b + part mem (k + 4) (n - 4), s.c + part mem (k + 8) (n - 8)⟩

/-- The last block, added to the state if there is any. -/
def lastAbsorbed (mem : Memory) (k n : Nat) (s : State) : Option State :=
  if 1 ≤ n ∧ n ≤ 12 then some (absorbed mem k n s) else none

theorem absorbWords_eq : absorbWords mem = (absorbed mem · 12) := by
  funext k s
  simp only [absorbWords, absorbed, word_eq, part_more, Nat.reduceSub, Nat.reduceMul, Nat.add_zero]

theorem absorbHalves_eq : absorbHalves mem = (absorbed mem · 12) := by
  funext k s
  simp [absorbHalves, absorbed, half_eq, add_halves, part_more]

theorem absorbBytes_eq : absorbBytes mem = (absorbed mem · 12) := by
  funext k s
  simp only [absorbBytes, absorbed, part_more, part_four, byte_add, ← UInt32.add_assoc, Nat.reduceSub,
    Nat.reduceAdd]

theorem tailWords_eq : tailWords mem = lastAbsorbed mem := by
  funext k n s
  have h1 (j : Nat) : part mem j 4 &&& (0xff : UInt32) = part mem j 1 := part_and rfl
  have h2 (j : Nat) : part mem j 4 &&& (0xffff : UInt32) = part mem j 2 := part_and rfl
  have h3 (j : Nat) : part mem j 4 &&& (0xffffff : UInt32) = part mem j 3 := part_and rfl
  match n with
  | 0 => rfl
  | 1 | 2 | 3 | 4 | 5 | 6 | 7 | 8 | 9 | 10 | 11 | 12 =>
    simp [tailWords, lastAbsorbed, absorbed, h1, h2, h3, word_eq, part_more, part_zero]
  | n + 13 => simp [tailWords, lastAbsorbed]

theorem tailHalves_eq : tailHalves mem = lastAbsorbed mem := by
  funext k n s
  match n with
  | 0 => rfl
  | 1 | 2 | 3 | 4 | 5 | 6 | 7 | 8 | 9 | 10 | 11 | 12 =>
    simp [tailHalves, tailHalves.upToTen, tailHalves.upToEight, tailHalves.upToSix, tailHalves.upToFour,
      tailHalves.upToTwo, absorbHalves_eq, lastAbsorbed, absorbed, half_eq, byte_eq, add_halves, add_third,
      part_more, part_zero]
  | n + 13 => simp [tailHalves, lastAbsorbed]

theorem tailBytes_eq : tailBytes mem = lastAbsorbed mem := by
  funext k n s
  match n with
  | 0 => simp [tailBytes, lastAbsorbed]
  | 1 | 2 | 3 | 4 | 5 | 6 | 7 | 8 | 9 | 10 | 11 | 12 =>
    simp [tailBytes, lastAbsorbed, absorbed, byte_eq, add_second, add_third, add_fourth, part_more, part_zero]
  | n + 13 => simp [tailBytes, lastAbsorbed]

/-! ## The whole key -/

/-- The bytes of the key. -/
def keyAt (mem : Memory) (key length : Nat) : Bytes := (List.range length).map fun i => mem (key + i)

theorem part_congr (h : ∀ i < n, mem (k + i) = mem' (k' + i)) : part mem k n = part mem' k' n := by
  refine congrArg (fun l => UInt32.ofNat (Nat.ofDigits 256 l)) (map_congr_left fun i hi => ?_)
  rw [h i (by have := mem_range.mp hi; omega)]

theorem absorbed_congr (h : ∀ i < n, mem (k + i) = mem' (k' + i)) : absorbed mem k n s = absorbed mem' k' n s := by
  have hshift (j : Nat) : ∀ i < n - j, mem (k + j + i) = mem' (k' + j + i) := fun i hi => by
    rw [Nat.add_assoc, Nat.add_assoc]
    exact h (j + i) (by omega)
  rw [absorbed, absorbed, part_congr h, part_congr (hshift 4), part_congr (hshift 8)]

theorem blocks_congr (h : ∀ i < length, mem (k + i) = mem' (k' + i)) (s : State) :
    (blocks (absorbed mem · 12) k length s).2 = (blocks (absorbed mem' · 12) k' length s).2 ∧
      ∀ i < (blocks (absorbed mem · 12) k length s).2.1,
        mem ((blocks (absorbed mem · 12) k length s).1 + i) =
          mem' ((blocks (absorbed mem' · 12) k' length s).1 + i) := by
  induction length using Nat.strongRecOn generalizing k k' s with
  | _ length ih =>
    unfold blocks
    split
    · rw [absorbed_congr fun i hi => h i (by omega)]
      refine ih (length - 12) (by omega) (fun i hi => ?_) _
      rw [Nat.add_assoc, Nat.add_assoc]
      exact h (12 + i) (by omega)
    · exact ⟨rfl, h⟩

/-- The path over the parts of the key. -/
def partPath (mem : Memory) : Nat → Nat → UInt32 := path (absorbed mem · 12) (lastAbsorbed mem)

theorem partPath_congr (h : ∀ i < length, mem (k + i) = mem' (k' + i)) :
    partPath mem k length = partPath mem' k' length := by
  obtain ⟨hrest, hlast⟩ := blocks_congr h (init length)
  unfold partPath path
  generalize blocks (absorbed mem · 12) k length (init length) = r at hrest hlast ⊢
  generalize blocks (absorbed mem' · 12) k' length (init length) = r' at hrest hlast ⊢
  obtain ⟨k, n, s⟩ := r
  obtain ⟨k', rest⟩ := r'
  obtain rfl : (n, s) = rest := hrest
  dsimp only
  rw [lastAbsorbed, lastAbsorbed, absorbed_congr hlast]

/-- All three paths compute one function of the key's bytes, wherever the key lies and whatever lies behind it. -/
theorem jenkins_of_key : ∃ hash : Bytes → UInt32, ∀ (mem : Memory) (key length : Nat),
    wordPath mem key length = hash (keyAt mem key length) ∧
    halfPath mem key length = hash (keyAt mem key length) ∧
    bytePath mem key length = hash (keyAt mem key length) ∧
    hashkitJenkins mem key length = hash (keyAt mem key length) := by
  refine ⟨fun bytes => partPath (fun i => bytes.getD i 0) 0 bytes.length, fun mem key length => ?_⟩
  have hword : wordPath mem = partPath mem := by rw [wordPath, absorbWords_eq, tailWords_eq, partPath]
  have hhalf : halfPath mem = partPath mem := by rw [halfPath, absorbHalves_eq, tailHalves_eq, partPath]
  have hbyte : bytePath mem = partPath mem := by rw [bytePath, absorbBytes_eq, tailBytes_eq, partPath]
  have hkey : partPath mem key length =
      partPath (fun i => (keyAt mem key length).getD i 0) 0 (keyAt mem key length).length := by
    rw [keyAt, length_map, length_range]
    refine partPath_congr fun i hi => ?_
    simp [hi]
  rw [hashkitJenkins, hword, hhalf, hbyte, ite_self, ite_self]
  exact ⟨hkey, hkey, hkey, hkey⟩

end LM.Hashkit.Jenkins
