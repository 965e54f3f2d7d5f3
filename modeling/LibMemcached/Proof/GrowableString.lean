import LibMemcached.Impl.GrowableString
import Mathlib.Data.List.Basic

/-!
# What growable strings hold

A string holds what was appended to it (`StringSt.Sound`, `Reachable`), and every call keeps it so (`perform_sound`). A
size that wraps is smaller than what is needed, as a block has less than `2 ^ 63` bytes (`check_spec`). Only
`memcached_string_set` loses the contents if it fails: it resets the string before it knows that there is room.
-/

namespace LM.StringSt

open List

variable {s : StringSt} (realloc : Realloc)

/-- What was appended, between `string` and `end`. -/
def contents (s : StringSt) : Bytes := s.string.take s.end_

/-- `string <= end <= string + current_size`, and the block is as large as that. -/
structure Sound (s : StringSt) : Prop where
  length : s.string.length = s.currentSize
  end_le : s.end_ ≤ s.currentSize
  lt : s.currentSize < 2 ^ 63

/-- The contents that a call leaves. -/
def Call.after : Call → Bool → Bytes → Bytes
  | .append value, true, contents => contents ++ value.1
  | .appendCharacter character, true, contents => contents ++ [character]
  | .set value, true, _ => value.1
  | .set _, false, _ => []
  | .reset, _, _ => []
  | .takeValue, true, _ => []
  | _, _, contents => contents

/-- A string after a sequence of calls, and what was appended to it since the last reset, set or take. -/
inductive Reachable : StringSt → Bytes → Prop
  | create {realloc initialSize s} (h : create realloc initialSize = some s) : Reachable s []
  | call {s contents realloc call ok s'} (h : Reachable s contents)
      (hcall : s.perform realloc call = some (ok, s')) : Reachable s' (call.after ok contents)

section

variable (h : s.Sound)
include h

/-- A check either makes room or leaves the string as it is. -/
theorem check_spec (need : UInt64) :
    (s.check realloc need).2.Sound ∧ (s.check realloc need).2.contents = s.contents ∧
      (s.check realloc need).2.end_ = s.end_ ∧
      ((s.check realloc need).1 = .success ∧ s.end_ + need.toNat ≤ (s.check realloc need).2.currentSize ∨
        (s.check realloc need).1 = .memoryAllocationFailure ∧ (s.check realloc need).2 = s) := by
  obtain ⟨hlength, hend, hlt⟩ := h
  have hneed := need.toNat_lt
  have hfree : (2 ^ 64 + s.currentSize - s.end_) % 2 ^ 64 = s.currentSize - s.end_ := by omega
  simp only [check, hfree]
  split
  · split
    · exact ⟨⟨hlength, hend, hlt⟩, rfl, rfl, .inr ⟨rfl, rfl⟩⟩
    · next hgrow hover =>
      generalize hnew : (((need.toNat - (s.currentSize - s.end_)) / 1024 + 1) * 1024 + s.currentSize) % 2 ^ 64 = newSize
        at hover ⊢
      cases hblock : realloc.block newSize with
      | none => exact ⟨⟨hlength, hend, hlt⟩, rfl, rfl, .inr ⟨rfl, rfl⟩⟩
      | some block =>
        have hsize := realloc.length_eq hblock
        have hbound := realloc.lt hblock
        -- a size that wraps is smaller than what is needed
        have hexact : (s.currentSize + 1024 * ((need.toNat - (s.currentSize - s.end_)) / 1024 + 1)) % 2 ^ 64 = newSize ∧
            s.end_ + need.toNat ≤ newSize ∧ s.currentSize ≤ newSize := by omega
        have hold : s.string.take newSize = s.string := take_of_length_le (by omega)
        rw [hexact.1, hold]
        refine ⟨⟨?_, Nat.le_trans hend hexact.2.2, hbound⟩, ?_, rfl, .inl ⟨rfl, hexact.2.1⟩⟩
        · simp only [length_append, length_drop]
          omega
        · exact take_append_of_le_length (hlength ▸ hend)
  · next hroom =>
    refine ⟨⟨hlength, hend, hlt⟩, rfl, rfl, .inl ⟨rfl, ?_⟩⟩
    by_cases hzero : need = 0
    · simp [hzero, hend]
    · have hle : ¬s.currentSize - s.end_ < need.toNat := fun hfew => hroom ⟨hzero, hfew⟩
      simp only
      omega

theorem store_spec {value : Bytes} (hroom : s.end_ + value.length ≤ s.currentSize) :
    ∃ t, s.store value = some t ∧ t.Sound ∧ t.end_ = s.end_ ∧ t.currentSize = s.currentSize ∧
      t.contents = s.contents ∧ t.string.take (s.end_ + value.length) = s.contents ++ value := by
  have hend : (s.string.take s.end_).length = s.end_ := by
    rw [length_take, h.length, Nat.min_eq_left h.end_le]
  refine ⟨_, if_pos (h.length ▸ hroom), ⟨?_, h.end_le, h.lt⟩, rfl, rfl, take_left' hend, ?_⟩
  · simp only [length_append, hend, length_drop, h.length]
    omega
  · rw [← append_assoc]
    exact take_left' (by rw [length_append, hend])

theorem append_spec (value : Buffer) : ∃ rc t, s.append realloc value = some (rc, t) ∧ t.Sound ∧
      (rc = .success ∧ t.contents = s.contents ++ value.1 ∨ rc = .memoryAllocationFailure ∧ t = s) := by
  obtain ⟨hsound, hcontents, hend, hok | hfail⟩ := check_spec realloc h (.ofNat value.1.length)
  · rw [UInt64.toNat_ofNat_of_lt' value.2, ← hend] at hok
    obtain ⟨t, hstore, ht, htend, htsize, -, htake⟩ := store_spec hsound hok.2
    refine ⟨.success, { t with end_ := t.end_ + value.1.length }, ?_, ⟨ht.length, ?_, ht.lt⟩, .inl ⟨rfl, ?_⟩⟩
    · simp only [append, hok.1, hstore]
      rfl
    · simpa only [htend, htsize] using hok.2
    · rw [← hcontents, ← htake, ← htend]
      rfl
  · exact ⟨_, _, by simp only [append, hfail.1]; rfl, hsound, .inr ⟨rfl, hfail.2⟩⟩

theorem appendNull_spec :
    ∃ rc t, s.appendNull realloc = some (rc, t) ∧ t.Sound ∧ t.contents = s.contents ∧
      (rc = .success ∨ rc = .memoryAllocationFailure ∧ t = s) := by
  obtain ⟨hsound, hcontents, hend, hok | hfail⟩ := check_spec realloc h 1
  · rw [← hend] at hok
    obtain ⟨t, hstore, ht, -, -, htcontents, -⟩ := @store_spec _ hsound [0] hok.2
    refine ⟨.success, t, ?_, ht, ?_, .inl rfl⟩
    · simp only [appendNull, hok.1, hstore]
      rfl
    · rw [htcontents, hcontents]
  · exact ⟨_, _, by simp only [appendNull, hfail.1]; rfl, hsound, hcontents, .inr ⟨rfl, hfail.2⟩⟩

/-- Every call is defined and leaves what it should. -/
theorem perform_spec (call : Call) :
    ∃ ok t, s.perform realloc call = some (ok, t) ∧ t.Sound ∧ t.contents = call.after ok s.contents ∧
      (ok = false → t.currentSize = s.currentSize) ∧
      ∀ need, call = .check need → ok = true → need.toNat ≤ t.currentSize - t.end_ := by
  cases call with
  | check need =>
    obtain ⟨hsound, hcontents, hend, hok | hfail⟩ := check_spec realloc h need
    · refine ⟨_, _, rfl, hsound, hcontents, ?_, ?_⟩
      · simp [hok.1, ReturnT.isSuccess]
      · rintro _ ⟨⟩ -
        omega
    · refine ⟨_, _, rfl, hsound, hcontents, fun _ => by rw [hfail.2], ?_⟩
      simp [hfail.1, ReturnT.isSuccess]
  | append value =>
    obtain ⟨rc, t, hrun, hsound, ⟨rfl, hcontents⟩ | ⟨rfl, rfl⟩⟩ := append_spec realloc h value
    · exact ⟨true, t, by simp [perform, hrun, ReturnT.isSuccess], hsound, hcontents, by simp, by simp⟩
    · exact ⟨false, t, by simp [perform, hrun, ReturnT.isSuccess], hsound, rfl, fun _ => rfl, by simp⟩
  | appendCharacter character =>
    obtain ⟨rc, t, hrun, hsound, ⟨rfl, hcontents⟩ | ⟨rfl, rfl⟩⟩ := append_spec realloc h ⟨[character], by simp⟩
    · exact ⟨true, t, by simp [perform, appendCharacter, hrun, ReturnT.isSuccess], hsound, hcontents, by simp, by simp⟩
    · exact ⟨false, t, by simp [perform, appendCharacter, hrun, ReturnT.isSuccess], hsound, rfl, fun _ => rfl, by simp⟩
  | set value =>
    have hreset : s.reset.Sound := ⟨h.length, Nat.zero_le _, h.lt⟩
    obtain ⟨rc, t, hrun, hsound, ⟨rfl, hcontents⟩ | ⟨rfl, rfl⟩⟩ := append_spec realloc hreset value
    · obtain ⟨rc, u, hnull, husound, hucontents, -⟩ := appendNull_spec realloc hsound
      refine ⟨true, u, by simp [perform, set, hrun, hnull, ReturnT.isSuccess], husound, ?_, by simp, by simp⟩
      rw [hucontents, hcontents]
      rfl
    · exact ⟨false, _, by simp [perform, set, hrun, ReturnT.isSuccess], hsound, rfl, fun _ => rfl, by simp⟩
  | reset => exact ⟨true, _, rfl, ⟨h.length, Nat.zero_le _, h.lt⟩, rfl, by simp, by simp⟩
  | takeValue =>
    by_cases hempty : s.end_ = 0
    · exact ⟨false, s, by simp [perform, takeValue, hempty], h, rfl, fun _ => rfl, by simp⟩
    · obtain ⟨rc, t, hnull, hsound, hcontents, rfl | ⟨rfl, rfl⟩⟩ := appendNull_spec realloc h
      · refine ⟨true, init, by simp [perform, takeValue, hempty, hnull, ReturnT.isFailed], ⟨rfl, Nat.le_refl _, by decide⟩,
          rfl, by simp, by simp⟩
      · exact ⟨false, t, by simp [perform, takeValue, hempty, hnull, ReturnT.isFailed], h, rfl, fun _ => rfl, by simp⟩

end

/-- What holds of a string to which `appended` was appended since the last reset, set or take. -/
structure Honest (s : StringSt) (appended : Bytes) : Prop where
  end_le : s.end_ ≤ s.currentSize ∧ s.string.length = s.currentSize
  contents_eq : s.contents = appended
  defined : ∀ realloc call, (s.perform realloc call).isSome
  room : ∀ {realloc need t}, s.perform realloc (.check need) = some (true, t) → need.toNat ≤ t.currentSize - t.end_
  failed : ∀ {realloc call t}, s.perform realloc call = some (false, t) → t.currentSize = s.currentSize ∧
    ((∀ value, call ≠ .set value) → t.contents = s.contents)

theorem Reachable.sound {appended : Bytes} (h : Reachable s appended) : s.Sound ∧ s.contents = appended := by
  induction h with
  | @create realloc initialSize s h =>
    have hinit : init.Sound := ⟨rfl, Nat.le_refl _, by decide⟩
    obtain ⟨hsound, hcontents, -⟩ := check_spec realloc hinit initialSize
    simp only [StringSt.create] at h
    split at h
    · cases h
    · cases h
      exact ⟨hsound, hcontents⟩
  | @call s appended realloc call ok s' _ hcall ih =>
    obtain ⟨ok, t, hrun, hsound, hcontents, -⟩ := perform_spec realloc ih.1 call
    cases hcall.symm.trans hrun
    exact ⟨hsound, by rw [hcontents, ih.2]⟩

/-- After every sequence of calls, whatever the allocator refuses, the string is what was appended to it, and only
a `set` that fails loses it. -/
theorem honest_of_reachable {appended : Bytes} (h : Reachable s appended) : s.Honest appended := by
  obtain ⟨hsound, hcontents⟩ := h.sound
  refine ⟨⟨hsound.end_le, hsound.length⟩, hcontents, fun realloc call => ?_, fun {realloc need t} hrun => ?_,
    fun {realloc call t} hrun => ?_⟩
  · obtain ⟨ok, t, hrun, -⟩ := perform_spec realloc hsound call
    rw [hrun]
    rfl
  · obtain ⟨ok, t, hspec, -, -, -, hroom⟩ := perform_spec realloc hsound (.check need)
    cases hrun.symm.trans hspec
    exact hroom need rfl rfl
  · obtain ⟨ok, t, hspec, -, hafter, hsize, -⟩ := perform_spec realloc hsound call
    cases hrun.symm.trans hspec
    refine ⟨hsize rfl, fun hset => ?_⟩
    rw [hafter]
    cases call with
    | set value => exact absurd rfl (hset value)
    | reset => cases hrun
    | _ => rfl

/-- An allocator that gives blocks of up to `most` zeros. -/
def zeros (most : Nat) (h : most < 2 ^ 63) : Realloc where
  block size := if size ≤ most then some (List.replicate size 0) else none
  length_eq hblock := by
    split at hblock <;> cases hblock
    exact length_replicate
  lt hblock := by
    split at hblock
    · omega
    · cases hblock

/-- The string of one character in its first block. -/
def single : StringSt := ⟨97 :: List.replicate 1023 0, 1, 1024⟩

theorem reachable_single : Reachable single [97] := by
  have hcreate : StringSt.create (zeros 0 (by decide)) 0 = some init := rfl
  have hcall : init.perform (zeros 1024 (by decide)) (.appendCharacter 97) = some (true, single) := by
    decide +kernel
  exact .call (.create hcreate) hcall

theorem honest_of_reachable_single : Reachable single [97] ∧ single.Honest [97] :=
  ⟨reachable_single, honest_of_reachable reachable_single⟩

/-- A `set` that finds no room has dropped the contents. -/
theorem set_loses_contents : ∃ (s : StringSt) (realloc : Realloc) (value : Buffer) (t : StringSt),
    Reachable s [97] ∧ s.perform realloc (.set value) = some (false, t) ∧ t.contents ≠ s.contents := by
  refine ⟨single, zeros 0 (by decide), ⟨List.replicate 1025 0, ?_⟩, single.reset, reachable_single, ?_, by decide⟩
  · rw [length_replicate]
    decide
  · decide +kernel

end LM.StringSt
