import LibMemcached.Impl.Api
import LibMemcached.Proof.Redistribution

/-!
# Hashing with the namespace

With `MEMCACHED_BEHAVIOR_HASH_WITH_PREFIX_KEY` the namespace and the key are put
together with `strncpy`, which stops at a null byte and fills up with zeros. So the
key is hashed as the prefixed key exactly when neither of the two has anything but
zeros behind its first null byte (`hash_with_namespace_iff`).
-/

namespace LM.Memcached

open List Hashkit

variable {H : Hashes} {c : Memcached} {key : Bytes}

/-- Behind the first null byte there are only null bytes. -/
def ZeroPadded (s : Bytes) : Prop := ∀ b ∈ s.dropWhile (· ≠ 0), b = 0

instance (s : Bytes) : Decidable (ZeroPadded s) :=
  inferInstanceAs (Decidable (∀ b ∈ s.dropWhile (· ≠ 0), b = 0))

theorem length_strncpy (s : Bytes) : (strncpy s).length = s.length := by
  have hle := (takeWhile_sublist (p := fun b : UInt8 => decide (b ≠ 0)) (l := s)).length_le
  simp only [strncpy, length_append, length_replicate]
  omega

theorem strncpy_eq_self_iff {s : Bytes} : strncpy s = s ↔ ZeroPadded s := by
  have hsplit := takeWhile_append_dropWhile (p := fun b : UInt8 => decide (b ≠ 0)) (l := s)
  have hlen : s.length - (s.takeWhile (· ≠ 0)).length = (s.dropWhile (· ≠ 0)).length := by
    have := congrArg List.length hsplit
    rw [length_append] at this
    omega
  unfold strncpy ZeroPadded
  rw [hlen]
  constructor
  · intro h
    have hrest := append_cancel_left (h.trans hsplit.symm)
    exact (eq_replicate_iff.mp hrest.symm).2
  · intro h
    have hrest : s.dropWhile (· ≠ 0) = List.replicate (s.dropWhile (· ≠ 0)).length 0 :=
      eq_replicate_iff.mpr ⟨rfl, h⟩
    rw [← hrest]
    exact hsplit

/-- The client without the option and without a namespace. -/
def unprefixed (c : Memcached) : Memcached :=
  { c with flags := { c.flags with hashWithNamespace := false }, namespace_ := none }

theorem arranged_unprefixed (c : Memcached) : c.unprefixed.arranged = c.arranged.unprefixed := by
  have hflag : c.unprefixed.flags.useSortHosts = c.flags.useSortHosts := rfl
  unfold arranged
  rw [hflag]
  split <;> rfl

section

variable (H : Hashes) (c : Memcached) (now : Nat)

theorem updateContinuum_unprefixed :
    (c.unprefixed.updateContinuum H now).2 = (c.updateContinuum H now).2.unprefixed := by
  have hlive : c.unprefixed.liveServers now = c.liveServers now := rfl
  unfold updateContinuum
  dsimp only
  rw [hlive]
  split <;> rfl

theorem runDistribution_unprefixed :
    (c.unprefixed.runDistribution H now).2 = (c.runDistribution H now).2.unprefixed := by
  have hcons : c.unprefixed.isConsistentDistribution = c.isConsistentDistribution := rfl
  rw [runDistribution_eq, runDistribution_eq, hcons, arranged_unprefixed]
  split
  · exact updateContinuum_unprefixed H c.arranged now
  · rfl

theorem regenForAutoEject_unprefixed :
    c.unprefixed.regenForAutoEject H now = (c.regenForAutoEject H now).unprefixed := by
  have hflag : c.unprefixed.flags.autoEjectHosts = c.flags.autoEjectHosts := rfl
  have hnext : c.unprefixed.ketama = c.ketama := rfl
  unfold regenForAutoEject
  rw [runDistribution_unprefixed, hflag, hnext]
  split
  · split <;> rfl
  · rfl

end

theorem dispatchHost_unprefixed (c : Memcached) (random : Nat) (hash : UInt32) :
    c.unprefixed.dispatchHost random hash = c.dispatchHost random hash := rfl

/-- The client selects, through both routing functions, the server that it would select for
`prefixed` without the option and without a namespace. -/
structure RoutesAs (H : Hashes) (c : Memcached) (key prefixed : Bytes) : Prop where
  generateHash : ∀ random, c.generateHash H random key = c.unprefixed.generateHash H random prefixed
  generateHashWithRedistribution : ∀ now random,
    (c.generateHashWithRedistribution H now random key).1 =
      (c.unprefixed.generateHashWithRedistribution H now random prefixed).1

theorem routesAs_of_hash {prefixed : Bytes}
    (h : c.generateHashWrapper H key = c.unprefixed.generateHashWrapper H prefixed) :
    RoutesAs H c key prefixed where
  generateHash random := by
    rw [Memcached.generateHash, Memcached.generateHash, dispatchHost_unprefixed, h]
  generateHashWithRedistribution now random := by
    simp only [Memcached.generateHashWithRedistribution]
    rw [regenForAutoEject_unprefixed, dispatchHost_unprefixed, h]

theorem generateHashWrapper_prefixed (hflag : c.flags.hashWithNamespace = true) (hcount : 2 ≤ c.serverCount)
    (hlen : (c.namespace_.getD []).length + key.length ≤ maxKey - 1) : c.generateHashWrapper H key =
      c.unprefixed.generateHashWrapper H (strncpy (c.namespace_.getD []) ++ strncpy key) := by
  have hone : c.serverCount ≠ 1 := by omega
  have hone' : c.unprefixed.serverCount ≠ 1 := hone
  have hfits : ¬ (strncpy (c.namespace_.getD []) ++ strncpy key).length > maxKey - 1 := by
    rw [length_append, length_strncpy, length_strncpy]
    omega
  unfold generateHashWrapper
  rw [if_neg hone, if_neg hone', if_pos hflag]
  exact if_neg hfits

/-- A hash function of the application that gives 1 to one key and 0 to the others. -/
def markHash (marked : Bytes) : Hashes :=
  { fnvHashes with custom := fun key => if key = marked then 1 else 0 }

/-- A client of two hosts with the binary protocol, its own hash function and a namespace. -/
def markClient (ns : Bytes) : Memcached :=
  { servers := [Instance.ofServer (letterHost 'a'), Instance.ofServer (letterHost 'b')]
    flags := { binaryProtocol := true, hashWithNamespace := true }
    hashkit := { baseHash := .custom }
    namespace_ := some ns }

theorem keyTest_markClient (ns : Bytes) (hkey : key ≠ []) (hlen : key.length ≤ 250) :
    ((markClient ns).keyTest key).1 = .success := by
  have hfits : ¬ (key.length = 0 ∨ key.length ≥ maxKey) := by
    rintro (h | h)
    · exact hkey (length_eq_zero_iff.mp h)
    · have : maxKey = 251 := rfl
      omega
  unfold keyTest
  rw [if_neg hfits]
  rfl

/-- For every namespace and key that fit together into a key, every client that hashes with this
namespace and accepts the key selects the server of the prefixed key, exactly when neither the
namespace nor the key has anything but zeros behind its first null byte. -/
theorem hash_with_namespace_iff {ns key : Bytes} (hkey : key ≠ [])
    (hlen : ns.length + key.length ≤ 250) :
    (∀ (H : Hashes) (c : Memcached), c.flags.hashWithNamespace = true → 2 ≤ c.serverCount →
        c.namespace_.getD [] = ns → (c.keyTest key).1 = .success → RoutesAs H c key (ns ++ key)) ↔
      ZeroPadded ns ∧ ZeroPadded key := by
  rw [← strncpy_eq_self_iff, ← strncpy_eq_self_iff]
  constructor
  · -- a client that hashes the prefixed key to 1 and everything else to 0
    intro h
    have hroute := (h (markHash (ns ++ key)) (markClient ns) rfl (le_refl 2) rfl
      (keyTest_markClient ns hkey (by omega))).generateHash 0
    have hcopy : strncpy ns ++ strncpy key = ns ++ key := by
      by_contra hne
      have hhash : (markClient ns).generateHashWrapper (markHash (ns ++ key)) key =
          (markClient ns).unprefixed.generateHashWrapper (markHash (ns ++ key))
            (strncpy ns ++ strncpy key) :=
        generateHashWrapper_prefixed rfl (le_refl 2) hlen
      rw [generateHash, generateHash, hhash, dispatchHost_unprefixed] at hroute
      change (markClient ns).dispatchHost 0 (if strncpy ns ++ strncpy key = ns ++ key then 1 else 0) =
        (markClient ns).dispatchHost 0 (if ns ++ key = ns ++ key then 1 else 0) at hroute
      rw [if_neg hne, if_pos rfl] at hroute
      exact absurd hroute (by simp [markClient, dispatchHost, serverCount])
    exact append_inj hcopy (length_strncpy ns)
  · rintro ⟨hns, hpadded⟩ H c hflag hcount rfl -
    refine routesAs_of_hash ?_
    rw [generateHashWrapper_prefixed hflag hcount hlen, hns, hpadded]

theorem hash_with_namespace_iff_text :
    (∀ (H : Hashes) (c : Memcached), c.flags.hashWithNamespace = true → 2 ≤ c.serverCount →
        c.namespace_.getD [] = [0x6e, 0x3a] → (c.keyTest [0x6b]).1 = .success →
        RoutesAs H c [0x6b] ([0x6e, 0x3a] ++ [0x6b])) ↔
      ZeroPadded [0x6e, 0x3a] ∧ ZeroPadded [0x6b] :=
  hash_with_namespace_iff (by decide) (by decide)

/-- Two hosts, the binary protocol and the namespace `n`. -/
def binaryPrefixed : Memcached :=
  configured fnvHashes [(.serverPush [letterHost 'a', letterHost 'b'], 0),
    (.behaviorSet .binaryProtocol 1, 0), (.behaviorSet .hashWithPrefixKey 1, 0),
    (.setNamespace (some [0x6e]), 0)]

/-- The key `a\0a` does not go where the key `na\0a` goes. -/
theorem null_byte_hides_key :
    binaryPrefixed.flags.hashWithNamespace = true ∧ binaryPrefixed.namespace_ = some [0x6e] ∧
      (binaryPrefixed.keyTest [0x61, 0, 0x61]).1 = .success ∧
      binaryPrefixed.generateHash fnvHashes 0 [0x61, 0, 0x61] ≠
        binaryPrefixed.unprefixed.generateHash fnvHashes 0 [0x6e, 0x61, 0, 0x61] := by
  decide +kernel

end LM.Memcached
