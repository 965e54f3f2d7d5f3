import Mathlib.Algebra.Group.Nat.Defs
import Mathlib.Logic.Function.Iterate

/-!
# Published hash functions

The one-at-a-time hash, the Fowler-Noll-Vo hashes and CRC-32 as they are published: over the octets of a key, which
are numbers from 0 to 255, with words of a fixed width.
-/

namespace LM.Published

/-- FNV-1: multiply by the prime, then add the octet bit by bit. -/
def fnv1 {w : Nat} (prime offset : BitVec w) (octets : List Nat) : BitVec w :=
  octets.foldl (fun hash octet => hash * prime ^^^ BitVec.ofNat w octet) offset

/-- FNV-1a: the octet comes first. -/
def fnv1a {w : Nat} (prime offset : BitVec w) (octets : List Nat) : BitVec w :=
  octets.foldl (fun hash octet => (hash ^^^ BitVec.ofNat w octet) * prime) offset

def fnv32Prime : BitVec 32 := 16777619
def fnv32Offset : BitVec 32 := 2166136261
def fnv64Prime : BitVec 64 := 1099511628211
def fnv64Offset : BitVec 64 := 14695981039346656037

/-- What one octet does to the one-at-a-time hash. -/
def oneAtATimeStep (hash : BitVec 32) (octet : Nat) : BitVec 32 :=
  let hash := hash + BitVec.ofNat 32 octet
  let hash := hash + hash <<< 10
  hash ^^^ hash >>> 6

/-- The one-at-a-time hash. -/
def oneAtATime (octets : List Nat) : BitVec 32 :=
  let hash := octets.foldl oneAtATimeStep 0
  let hash := hash + hash <<< 3
  let hash := hash ^^^ hash >>> 11
  hash + hash <<< 15

/-- One bit of a reflected cyclic redundancy check. -/
def crcBit {w : Nat} (polynomial crc : BitVec w) : BitVec w :=
  if crc.getLsbD 0 then crc >>> 1 ^^^ polynomial else crc >>> 1

def crc32Polynomial : BitVec 32 := 0xEDB88320

/-- An octet is added to the low end, and its eight bits are shifted out. -/
def crc32Octet (crc : BitVec 32) (octet : Nat) : BitVec 32 :=
  (crcBit crc32Polynomial)^[8] (crc ^^^ BitVec.ofNat 32 octet)

/-- CRC-32, bit by bit. -/
def crc32 (octets : List Nat) : BitVec 32 := ~~~octets.foldl crc32Octet (BitVec.allOnes 32)

end LM.Published
