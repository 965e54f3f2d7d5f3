import LibMemcached.Framework.Extremes
import LibMemcached.Impl.Analyze

/-!
# The extremes of a cluster

The loop of `memcached_analyze` keeps the first server with the most bytes and the first with the longest uptime, as
far as 32 bits of it go (`Leads`). For the least free server it takes zero as a sign that there is none yet, so a
full server is forgotten with the next one (`Lowest`). `analyze_extremes_iff` says when the analysis is right.
-/

namespace LM

open List

/-- The bytes a server has left. -/
def StatSt.remaining (s : StatSt) : Nat := (s.counter .limitMaxbytes).toNat - (s.counter .bytes).toNat

/-- The number of bytes or items of all servers. -/
def sumOf (c : Counter) (stats : List StatSt) : Nat := (stats.map fun s => (s.counter c).toNat).sum

namespace Analysis

/-- What the analysis is to report. -/
structure Extremes (stats : List StatSt) (r : Analysis) : Prop where
  leastFree : ∃ s, stats[r.leastFreeServer]? = some s ∧ r.leastRemainingBytes.toNat = s.remaining ∧
    ∀ t ∈ stats, s.remaining ≤ t.remaining
  mostConsumed : ∃ s, stats[r.mostConsumedServer]? = some s ∧ ∀ t ∈ stats, t.counter .bytes ≤ s.counter .bytes
  oldest : ∃ s, stats[r.oldestServer]? = some s ∧ ∀ t ∈ stats, t.counter .uptime ≤ s.counter .uptime
  averageItemSize : sumOf .bytes stats ≠ 0 → sumOf .currItems stats ≠ 0 →
    r.averageItemSize.toNat = sumOf .bytes stats / sumOf .currItems stats % 2 ^ 32

/-! ## The loop -/

/-- The uptime of a server as far as it is looked at. -/
def narrow (s : StatSt) : Nat := (s.counter .uptime).toNat % 2 ^ 32

/-- The bytes left as they are computed. -/
def difference (s : StatSt) : Nat := (s.counter .limitMaxbytes - s.counter .bytes).toNat

/-- The analysis after some servers. -/
structure Scanned (done : List StatSt) (r : Analysis) : Prop where
  consumed : Leads (fun s => (s.counter .bytes).toNat) done r.mostConsumedServer r.mostUsedBytes.toNat
  oldest : Leads narrow done r.oldestServer r.longestUptime.toNat
  free : Lowest difference done r.leastFreeServer r.leastRemainingBytes.toNat

variable {stats done : List StatSt} {r : Analysis}

theorem calcServer_eq (r : Analysis) (x : Nat) (s : StatSt) : r.calcServer x s =
    { r with
      mostUsedBytes := if r.mostUsedBytes < s.counter .bytes then s.counter .bytes else r.mostUsedBytes
      mostConsumedServer := if r.mostUsedBytes < s.counter .bytes then x else r.mostConsumedServer
      longestUptime := if r.longestUptime < (s.counter .uptime).toUInt32 then (s.counter .uptime).toUInt32
        else r.longestUptime
      oldestServer := if r.longestUptime < (s.counter .uptime).toUInt32 then x else r.oldestServer
      leastRemainingBytes := if r.leastRemainingBytes = 0 ∨
          s.counter .limitMaxbytes - s.counter .bytes < r.leastRemainingBytes then
        s.counter .limitMaxbytes - s.counter .bytes else r.leastRemainingBytes
      leastFreeServer := if r.leastRemainingBytes = 0 ∨
          s.counter .limitMaxbytes - s.counter .bytes < r.leastRemainingBytes then x
        else r.leastFreeServer } := by
  unfold calcServer calcLargestConsumption calcOldestNode calcLeastFreeNode
  dsimp only
  split <;> split <;> split <;> simp_all

theorem Scanned.step (h : Scanned done r) (s : StatSt) :
    Scanned (done ++ [s]) (r.calcServer done.length s) := by
  have hconsumed := h.consumed.step s
  have holdest := h.oldest.step s
  have hfree := h.free.step s
  simp only [← UInt64.lt_iff_toNat_lt] at hconsumed
  have hnarrow : narrow s = (s.counter .uptime).toUInt32.toNat := by simp [narrow]
  rw [hnarrow] at holdest
  simp only [← UInt32.lt_iff_toNat_lt] at holdest
  have hzero : r.leastRemainingBytes.toNat = 0 ↔ r.leastRemainingBytes = 0 := UInt64.toNat_inj (b := 0)
  simp only [difference, ← UInt64.lt_iff_toNat_lt, hzero] at hfree
  rw [calcServer_eq]
  refine ⟨?_, ?_, ?_⟩
  · simpa only [apply_ite UInt64.toNat] using hconsumed
  · simpa only [apply_ite UInt32.toNat] using holdest
  · simpa only [apply_ite UInt64.toNat] using hfree

theorem Scanned.loop (h : Scanned done r) (rest : List StatSt) :
    Scanned (done ++ rest) (r.loop done.length rest) := by
  induction rest generalizing done r with
  | nil =>
    rw [append_nil]
    exact h
  | cons s rest ih =>
    have hnext := ih (h.step s)
    rw [append_assoc, length_append] at hnext
    exact hnext

theorem scanned_all (stats : List StatSt) : Scanned stats (({} : Analysis).loop 0 stats) :=
  @Scanned.loop [] {} ⟨.inl ⟨rfl, rfl, rfl⟩, .inl ⟨rfl, rfl, rfl⟩, .inl ⟨rfl, rfl, rfl⟩⟩ stats

theorem toNat_total (c : Counter) (stats : List StatSt) : (total c stats).toNat = sumOf c stats % 2 ^ 64 := by
  have hfold (sum : UInt64) : (stats.foldl (fun sum s => sum + s.counter c) sum).toNat =
      (sum.toNat + sumOf c stats) % 2 ^ 64 := by
    induction stats generalizing sum with
    | nil => simp [sumOf, Nat.mod_eq_of_lt sum.toNat_lt]
    | cons s rest ih =>
      rw [foldl_cons, ih, UInt64.toNat_add, Nat.mod_add_mod]
      simp [sumOf, Nat.add_assoc]
  rw [total, hfold 0, show (0 : UInt64).toNat = 0 from rfl, Nat.zero_add]

theorem Scanned.calcAverageItemSize (h : Scanned done r) (items bytes : UInt64) :
    Scanned done (r.calcAverageItemSize items bytes) := by
  unfold Analysis.calcAverageItemSize
  split
  · exact ⟨h.consumed, h.oldest, h.free⟩
  · exact h

theorem averageItemSize_loop (r : Analysis) (x : Nat) (rest : List StatSt) :
    (r.loop x rest).averageItemSize = r.averageItemSize := by
  induction rest generalizing r x with
  | nil => rfl
  | cons s rest ih =>
    rw [loop, ih, calcServer_eq]

theorem toNat_averageItemSize (h : r.averageItemSize = 0) (items bytes : UInt64) :
    (r.calcAverageItemSize items bytes).averageItemSize.toNat = bytes.toNat / items.toNat % 2 ^ 32 := by
  unfold calcAverageItemSize
  split
  · simp
  · next hzero =>
    rw [h]
    rw [gt_iff_lt, gt_iff_lt, UInt64.lt_iff_toNat_lt, UInt64.lt_iff_toNat_lt] at hzero
    have hcases : items.toNat = 0 ∨ bytes.toNat = 0 := by
      have : (0 : UInt64).toNat = 0 := rfl
      omega
    rcases hcases with h0 | h0 <;> simp [h0]

/-! ## When the analysis is right -/

/-- No server is full, or the last one is; the server with the longest uptime is still the first one with the longest
uptime in 32 bits; and the totals modulo `2 ^ 64` have the quotient of the totals. -/
structure Foreseen (stats : List StatSt) : Prop where
  full : ∃ last, stats.getLast? = some last ∧ ((∃ s ∈ stats, s.remaining = 0) → last.remaining = 0)
  uptime : ∃ (i : Nat) (s : StatSt), stats[i]? = some s ∧ (∀ t ∈ stats, t.counter .uptime ≤ s.counter .uptime) ∧
    (∀ t ∈ stats, narrow t ≤ narrow s) ∧ ∀ j < i, ∀ t, stats[j]? = some t → narrow t < narrow s
  totals : sumOf .bytes stats ≠ 0 → sumOf .currItems stats ≠ 0 →
    sumOf .bytes stats % 2 ^ 64 / (sumOf .currItems stats % 2 ^ 64) % 2 ^ 32 =
      sumOf .bytes stats / sumOf .currItems stats % 2 ^ 32

variable (h : ∀ s ∈ stats, s.counter .bytes ≤ s.counter .limitMaxbytes)
include h

theorem difference_eq {s : StatSt} (hs : s ∈ stats) : difference s = s.remaining :=
  UInt64.toNat_sub_of_le _ _ (h s hs)

theorem leastFree_iff (hne : stats ≠ []) (hfree : Lowest difference stats r.leastFreeServer
    r.leastRemainingBytes.toNat) :
    (∃ s, stats[r.leastFreeServer]? = some s ∧ r.leastRemainingBytes.toNat = s.remaining ∧
      ∀ t ∈ stats, s.remaining ≤ t.remaining) ↔
    ∃ last, stats.getLast? = some last ∧ ((∃ s ∈ stats, s.remaining = 0) → last.remaining = 0) := by
  rcases hfree with ⟨hnil, -⟩ | ⟨s, last, hs, hbest, hlast, hzero, hmin⟩
  · exact absurd hnil hne
  have hmem := mem_of_getElem? hs
  rw [difference_eq h hmem] at hbest
  rw [difference_eq h (mem_of_getLast? hlast), ← hbest] at hzero
  constructor
  · rintro ⟨s', hs', -, hleast⟩
    obtain rfl : s = s' := by simpa [hs] using hs'
    refine ⟨last, hlast, fun ⟨z, hz, hz0⟩ => hzero.mp ?_⟩
    have := hleast z hz
    omega
  · rintro ⟨last', hlast', hfull⟩
    obtain rfl : last = last' := by simpa [hlast] using hlast'
    refine ⟨s, hs, hbest.symm, fun t ht => ?_⟩
    by_cases hz : ∃ z ∈ stats, z.remaining = 0
    · have := hzero.mpr (hfull hz)
      omega
    · have hleast := hmin (fun z hz' h0 => hz ⟨z, hz', (difference_eq h hz').symm.trans h0⟩) t ht
      rw [difference_eq h ht, ← hbest] at hleast
      exact hleast

omit h in
theorem oldest_iff (hne : stats ≠ []) (holdest : Leads narrow stats r.oldestServer r.longestUptime.toNat) :
    (∃ s, stats[r.oldestServer]? = some s ∧ ∀ t ∈ stats, t.counter .uptime ≤ s.counter .uptime) ↔
    ∃ (i : Nat) (s : StatSt), stats[i]? = some s ∧ (∀ t ∈ stats, t.counter .uptime ≤ s.counter .uptime) ∧
      (∀ t ∈ stats, narrow t ≤ narrow s) ∧ ∀ j < i, ∀ t, stats[j]? = some t → narrow t < narrow s := by
  rcases holdest with ⟨hnil, -⟩ | ⟨s, hs, hbest, hmax, hfirst⟩
  · exact absurd hnil hne
  rw [← hbest] at hmax hfirst
  constructor
  · rintro ⟨s', hs', hlongest⟩
    obtain rfl : s = s' := by simpa [hs] using hs'
    exact ⟨_, s, hs, hlongest, hmax, hfirst⟩
  · rintro ⟨i, s', hs', hlongest, hmax', hfirst'⟩
    -- there is only one first place
    have heq : r.oldestServer = i := by
      rcases Nat.lt_trichotomy r.oldestServer i with hlt | heq | hlt
      · have := hfirst' _ hlt s hs
        have := hmax s' (mem_of_getElem? hs')
        omega
      · exact heq
      · have := hfirst i hlt s' hs'
        have := hmax' s (mem_of_getElem? hs)
        omega
    exact ⟨s', heq ▸ hs', hlongest⟩

/-- The analysis reports the true extremes exactly if it was foreseen. -/
theorem analyze_extremes_iff : (∃ r, memcachedAnalyze stats = some r ∧ Extremes stats r) ↔ Foreseen stats := by
  by_cases hne : stats = []
  · subst hne
    refine ⟨fun ⟨r, hr, _⟩ => ?_, fun hf => ?_⟩
    · cases hr
    · obtain ⟨last, hlast, -⟩ := hf.full
      cases hlast
  have hscan := (scanned_all stats).calcAverageItemSize (total .currItems stats) (total .bytes stats)
  have haverage := toNat_averageItemSize (averageItemSize_loop {} 0 stats) (total .currItems stats)
    (total .bytes stats)
  rw [toNat_total, toNat_total] at haverage
  have hrun : memcachedAnalyze stats = some _ := if_neg hne
  generalize (({} : Analysis).loop 0 stats).calcAverageItemSize (total .currItems stats) (total .bytes stats) = r
    at hscan haverage hrun
  have hconsumed : ∃ s, stats[r.mostConsumedServer]? = some s ∧
      ∀ t ∈ stats, t.counter .bytes ≤ s.counter .bytes := by
    rcases hscan.consumed with ⟨hnil, -⟩ | ⟨s, hs, hbest, hmax, -⟩
    · exact absurd hnil hne
    · exact ⟨s, hs, fun t ht => UInt64.le_iff_toNat_le.mpr ((hmax t ht).trans_eq hbest.symm)⟩
  rw [hrun]
  constructor
  · rintro ⟨r', hr', hext⟩
    cases hr'
    refine ⟨(leastFree_iff h hne hscan.free).mp hext.leastFree, (oldest_iff hne hscan.oldest).mp hext.oldest,
      fun hbytes hitems => ?_⟩
    rw [← haverage]
    exact hext.averageItemSize hbytes hitems
  · intro hf
    refine ⟨r, rfl, (leastFree_iff h hne hscan.free).mpr hf.full, hconsumed,
      (oldest_iff hne hscan.oldest).mpr hf.uptime, fun hbytes hitems => ?_⟩
    rw [haverage]
    exact hf.totals hbytes hitems

omit h

/-- A server that holds `items` items in `bytes` of its `limit` bytes. -/
def server (items bytes limit uptime : UInt64) : StatSt where
  counter
    | .currItems => items
    | .bytes => bytes
    | .limitMaxbytes => limit
    | .uptime => uptime
    | _ => 0

theorem analyze_extremes_two : ∃ r, memcachedAnalyze [server 2 30 64 5, server 1 60 64 9] = some r ∧
    Extremes [server 2 30 64 5, server 1 60 64 9] r := by
  refine (analyze_extremes_iff (by decide)).mpr ⟨⟨server 1 60 64 9, rfl, by decide⟩,
    ⟨1, server 1 60 64 9, rfl, by decide, by decide, fun j hj t ht => ?_⟩, by decide⟩
  obtain rfl : j = 0 := by omega
  cases ht
  decide

/-- The first of two servers is full, and the second is reported as the one with the least bytes left. -/
theorem analyze_forgets_full :
    (memcachedAnalyze [server 1 64 64 5, server 1 10 64 9]).map
      (fun r => (r.leastFreeServer, r.leastRemainingBytes)) = some (1, 54) ∧
    (server 1 64 64 5).remaining = 0 ∧ (server 1 10 64 9).remaining = 54 := by
  decide +kernel

/-- The first of two servers has been up for `2 ^ 32` seconds, and the second is reported as the oldest. -/
example : (memcachedAnalyze [server 1 8 64 (2 ^ 32), server 1 8 64 1]).map (·.oldestServer) = some 1 := by
  decide +kernel

end Analysis

end LM
