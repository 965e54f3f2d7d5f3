import Mathlib.Algebra.BigOperators.Ring.List
import LibMemcached.Proof.Clone

/-!
# Every route names a host

The numbers that routing returns come from tables, the continuum and the bucket
map, that were built when the host list was another one. `Bounded` is what keeps
them in range: the continuum names hosts that exist, and it is not empty while a
consistent distribution is selected. A call can break it in one way only, by
selecting a consistent distribution while every host is ejected and no continuum
has been built yet.
-/

namespace LM

open List Hashkit

/-! ## Weighted points -/

/-- A host that weighs at least the average has points on a weighted continuum:
it is due 40 groups of four, and rounding cannot take all of them. -/
theorem weightedPoints_pos {weight totalWeight liveServers : Nat} (hlive : 0 < liveServers)
    (htotal : 0 < totalWeight) (hweight : totalWeight ≤ weight * liveServers) :
    0 < weightedPoints weight totalWeight liveServers / 4 := by
  have hw : 0 < weight := Nat.pos_of_ne_zero fun h => by simp [h] at hweight; omega
  have hwq : (0 : ℚ) < weight := by exact_mod_cast hw
  have htq : (0 : ℚ) < totalWeight := by exact_mod_cast htotal
  have hlq : (0 : ℚ) < liveServers := by exact_mod_cast hlive
  have hratio : (1 : ℚ) ≤ weight / totalWeight * liveServers := by
    rw [div_mul_eq_mul_div, le_div_iff₀ htq, one_mul]
    exact_mod_cast hweight
  have hk : 0 < pointsPerServerKetama := by decide
  have hpct := Binary32.le_div (by positivity) (Binary32.ofNat_pos htotal)
    (Binary32.le_ofNat hw) (Binary32.ofNat_le htotal)
  have hgroups := Binary32.le_div (by positivity) (Binary32.ofNat_pos (n := 4) (by norm_num))
    (Binary32.le_mul (by positivity) (by positivity) hpct (Binary32.le_ofNat hk))
    (Binary32.ofNat_le (n := 4) (by norm_num))
  have hall := Binary32.le_add (by positivity)
    (Binary32.le_mul (by positivity) (by positivity) hgroups (Binary32.le_ofNat hlive))
    (Binary32.round_pos (x := 1 / 10 ^ 10) (by norm_num)).le
  have hfloor : 1 ≤ ⌊_⌋₊ := (Nat.one_le_floor_iff _).mpr (le_trans ?_ hall)
  · unfold weightedPoints
    rw [Nat.mul_div_cancel _ (by norm_num)]
    exact hfloor
  · calc (1 : ℚ) ≤ weight / totalWeight * liveServers * (160 / 4 * (15 / 16) ^ 8 / (17 / 16) ^ 2) := by
          norm_num
          linarith
      _ = _ := by
          simp only [pointsPerServerKetama]
          push_cast
          field_simp

/-- Some entry of a list is at least the average. -/
theorem exists_sum_le_mul_length {l : List Nat} (hne : l ≠ []) : ∃ x ∈ l, l.sum ≤ x * l.length := by
  refine exists_le_of_sum_le hne (fun _ => l.sum) (· * l.length) ?_
  simp [sum_map_mul_right, Nat.mul_comm]

namespace Memcached

variable {H : Hashes} {c d : Memcached} {now : Nat}

/-- The hosts that `update_continuum` gives points to. -/
def liveHosts (c : Memcached) (now : Nat) : List Instance :=
  c.servers.filter fun s => !c.isEjected now s

theorem liveServers_eq_length (c : Memcached) (now : Nat) : c.liveServers now = (c.liveHosts now).length := by
  unfold liveServers liveHosts isEjected serverCount
  split
  · rename_i h
    rw [countP_eq_length_filter]
    congr 1
    exact filter_congr fun s _ => by simp only [h, Bool.true_and, ← decide_not, not_lt]
  · rename_i h
    simp [h]

theorem continuumPoints_ne_nil_of_live (H : Hashes) (hlive : c.liveServers now ≠ 0) :
    c.continuumPoints H now ≠ [] := by
  -- the points of some host that is not ejected are not empty
  suffices h : ∃ i s, c.servers[i]? = some s ∧ c.isEjected now s = false ∧
      c.hostPoints H now (s, i) ≠ [] by
    obtain ⟨i, s, hget, hej, hpts⟩ := h
    intro hnil
    refine hpts (flatMap_eq_nil_iff.mp hnil (s, i) (mem_filter.mpr ⟨?_, by simp [hej]⟩))
    exact mem_zipIdx_iff_getElem?.mpr hget
  cases hw : c.ketama.weighted
  · obtain ⟨s, hs, hej⟩ := (liveServers_ne_zero_iff c now).mp hlive
    obtain ⟨i, hget⟩ := List.getElem?_of_mem hs
    exact ⟨i, s, hget, hej, by simp [hostPoints, hw, pointsPerServer]⟩
  · rw [liveServers_eq_length] at hlive
    have hne : (c.liveHosts now).map (fun s => s.weight.toNat) ≠ [] := by
      simpa using fun h => hlive (by rw [h, length_nil])
    obtain ⟨x, hx, havg⟩ := exists_sum_le_mul_length hne
    obtain ⟨s, hs, rfl⟩ := mem_map.mp hx
    rw [length_map, ← liveServers_eq_length] at havg
    obtain ⟨hmem, hej⟩ := mem_filter.mp hs
    obtain ⟨i, hget⟩ := List.getElem?_of_mem hmem
    have hweight : 0 < s.weight.toNat := Nat.pos_of_ne_zero fun h0 =>
      s.weight_ne_zero (UInt32.toNat_inj.mp h0)
    have htotal : 0 < c.totalWeight now :=
      hweight.trans_le (single_le_sum (fun _ _ => Nat.zero_le _) _ hx)
    have hpos := weightedPoints_pos (Nat.pos_of_ne_zero (liveServers_eq_length c now ▸ hlive)) htotal
      havg
    refine ⟨i, s, hget, by simpa using hej, ?_⟩
    simp only [hostPoints, hw, if_true, ne_eq, flatMap_eq_nil_iff, mem_range]
    exact fun h => by simpa using h 0 hpos

/-! ## The invariant -/

/-- The continuum names hosts that exist, and it is there when it is needed. -/
structure Bounded (c : Memcached) : Prop where
  index_lt : ∀ item ∈ c.ketama.continuum, item.index < c.servers.length
  ne_nil : c.isConsistentDistribution = true → c.servers ≠ [] → c.ketama.continuum ≠ []

theorem bounded_create : create.Bounded :=
  ⟨by simp [create], by simp [create, isConsistentDistribution]⟩

theorem SameRing.bounded (h : SameRing c d) (hc : c.Bounded) : d.Bounded where
  index_lt := by simpa [h.servers, h.continuum] using hc.index_lt
  ne_nil := by
    simpa [isConsistentDistribution, h.servers, h.continuum, h.distribution] using hc.ne_nil

theorem liveServers_arranged_ne_zero_iff : c.arranged.liveServers now ≠ 0 ↔ c.liveServers now ≠ 0 := by
  simp only [liveServers_ne_zero_iff, mem_arranged, isEjected, arranged_flags]

/-- A rebuild leaves the continuum in bounds if there is a live server to build it
from or a continuum in bounds to keep. -/
theorem bounded_runDistribution {b : Memcached} (H : Hashes) {now : Nat}
    (hindex : ∀ item ∈ b.ketama.continuum, item.index < b.servers.length) (hne : b.isConsistentDistribution = true → b.servers ≠ [] →
      b.liveServers now ≠ 0 ∨ b.ketama.continuum ≠ []) : (b.runDistribution H now).2.Bounded := by
  have hlen := length_arranged b
  by_cases hlive : b.liveServers now = 0
  · have hkept : (b.runDistribution H now).2.ketama.continuum = b.ketama.continuum := by
      have : b.arranged.liveServers now = 0 := by
        by_contra h
        exact liveServers_arranged_ne_zero_iff.mp h hlive
      rw [runDistribution_continuum, rebuiltContinuum, if_pos this, arranged_ketama, ite_self]
    refine ⟨fun item hitem => ?_, fun hd hs => ?_⟩
    · rw [hkept] at hitem
      rw [runDistribution_servers, hlen]
      exact hindex item hitem
    · rw [hkept]
      rw [runDistribution_servers] at hs
      refine (hne (by simpa [isConsistentDistribution] using hd) ?_).resolve_left (by simp [hlive])
      exact fun h => hs (length_eq_zero_iff.mp (by rw [hlen, h, length_nil]))
  · have hlive' := liveServers_arranged_ne_zero_iff.mpr hlive
    have hcont : (b.runDistribution H now).2.ketama.continuum = if b.isConsistentDistribution then
          (b.arranged.continuumPoints H now).insertionSort ContinuumItem.le
        else b.ketama.continuum := by
      rw [runDistribution_continuum, rebuiltContinuum, if_neg hlive']
    refine ⟨fun item hitem => ?_, fun hd _ => ?_⟩
    · rw [hcont] at hitem
      rw [runDistribution_servers]
      split at hitem
      · obtain ⟨_, hget, -⟩ := host_of_mem_continuumPoints H b.arranged now
          ((mem_insertionSort _).mp hitem)
        exact (List.getElem?_eq_some_iff.mp hget).1
      · rw [hlen]
        exact hindex item hitem
    · have hd : b.isConsistentDistribution = true := by simpa [isConsistentDistribution] using hd
      rw [hcont, if_pos hd]
      intro hnil
      refine continuumPoints_ne_nil_of_live H hlive' (length_eq_zero_iff.mp ?_)
      rw [← length_insertionSort ContinuumItem.le, hnil, length_nil]

theorem Bounded.withServers (hc : c.Bounded) (new : List Server) (weighted : Bool) (now : Nat)
    (H : Hashes) : ((c.withServers new weighted).runDistribution H now).2.Bounded := by
  refine bounded_runDistribution H (fun item hitem => ?_) fun hd hs => ?_
  · have := hc.index_lt item hitem
    simp only [Memcached.withServers, length_append]
    omega
  · cases new with
    | nil =>
      simp only [Memcached.withServers, map_nil, append_nil] at hs
      exact .inr (hc.ne_nil hd hs)
    | cons server rest =>
      -- a new host is live
      refine .inl ((liveServers_ne_zero_iff _ now).mpr ⟨Instance.ofServer server, ?_, ?_⟩)
      · simp [Memcached.withServers]
      · simp [isEjected, Instance.ofServer]

/-- A consistent distribution that is selected finds a live server or a continuum. -/
def SwitchFinds (c : Memcached) (now : Nat) (type : Distribution) : Prop :=
  (c.withDistribution type).isConsistentDistribution = true → c.servers ≠ [] →
    c.liveServers now ≠ 0 ∨ c.ketama.continuum ≠ []

theorem Bounded.behaviorSetDistribution (hc : c.Bounded) (H : Hashes) (now : Nat)
    {type : Distribution} (hok : c.SwitchFinds now type) :
    (c.behaviorSetDistribution H now type).2.Bounded := by
  by_cases htype : type = .consistentMax
  · subst htype
    exact (behaviorSetDistribution_max H c now).bounded hc
  · rw [behaviorSetDistribution_eq H c now htype]
    exact bounded_runDistribution H hc.index_lt hok

/-- A call that keeps the continuum in bounds: if it selects a consistent
distribution, it finds a live server or a continuum. -/
def KeepsBounded (c : Memcached) (now : Nat) : Call → Prop
  | .behaviorSet .distribution data => c.SwitchFinds now (.ofData data.toUInt32.toNat)
  | .behaviorSet .ketama data =>
    c.SwitchFinds now (if boolOfData data then .consistentKetama else .modula)
  | .behaviorSet .ketamaWeighted data =>
    c.SwitchFinds now (if boolOfData data then .consistentWeighted else .consistentKetama)
  | _ => True

section

variable (hc : c.Bounded) (H : Hashes) (now : Nat)
include hc

theorem Bounded.behaviorSet (flag : Behavior) (data : UInt64)
    (hok : c.KeepsBounded now (.behaviorSet flag data)) : (c.behaviorSet H now flag data).2.Bounded := by
  cases hflag : Behavior.isRouting flag
  · exact (sameRing_behaviorSet H c now data hflag).bounded hc
  · cases flag <;> simp only [Behavior.isRouting, Bool.false_eq_true] at hflag
    case distribution => exact hc.behaviorSetDistribution H now hok
    case ketama => exact hc.behaviorSetDistribution H now hok
    case hash =>
      have hbase : ∀ function, (c.withBaseHash function).Bounded := fun _ => ⟨hc.index_lt, hc.ne_nil⟩
      exact (sameRing_behaviorSetKeyHash c H).bounded (hbase _)
    case sortHosts =>
      exact bounded_runDistribution H hc.index_lt fun hd hs => .inr (hc.ne_nil hd hs)
    case ketamaWeighted =>
      simp only [KeepsBounded] at hok
      simp only [Memcached.behaviorSet, behaviorSetKetamaWeighted]
      cases hon : boolOfData data <;> simp only [hon, if_true, Bool.false_eq_true, if_false] at hok ⊢
      · exact hc.behaviorSetDistribution H now hok
      · rw [behaviorSetDistribution_eq H _ now (by decide)]
        exact bounded_runDistribution H hc.index_lt hok

theorem Bounded.bucketSet (hostMap forwardMap : Option (Nat → UInt32)) (buckets replicas : UInt32) :
    (c.bucketSet H now hostMap forwardMap buckets replicas).2.Bounded := by
  have hvb : (c.behaviorSetDistribution H now .virtualBucket).2.Bounded :=
    hc.behaviorSetDistribution H now fun hd => by
      simp [withDistribution, isConsistentDistribution] at hd
  cases hostMap with
  | none => exact hc
  | some hostMap =>
    by_cases hb : buckets = 0
    · subst hb
      rw [bucketSet_of_zero]
      -- the old distribution comes back to the old continuum
      refine hvb.behaviorSetDistribution H now fun hd hs => .inr ?_
      rw [behaviorSetDistribution_eq H c now (by decide)] at hs ⊢
      rw [runDistribution_continuum, if_neg (by simp [withDistribution, isConsistentDistribution])]
      refine hc.ne_nil hd fun h => hs ?_
      have hlen := length_arranged (c.withDistribution .virtualBucket)
      rw [runDistribution_servers]
      exact length_eq_zero_iff.mp (hlen.trans (congrArg List.length h))
    · rw [bucketSet_of_ne_zero H c now hostMap forwardMap hb]
      simp only [virtualBucketCreate, hb, dite_false]
      exact ⟨hvb.index_lt, hvb.ne_nil⟩

/-- One step: every call keeps the bounds, but for a consistent distribution that
finds neither a live server nor a continuum. -/
theorem Bounded.perform (call : Call) (hok : c.KeepsBounded now call) : (c.perform H now call).2.Bounded := by
  cases call with
  | serverAddWithWeight hostname port weight =>
    simp only [Memcached.perform, serverAddWithWeight]
    split
    · exact (sameRing_setError _ _ _).bounded hc
    · rw [serverAdd_eq]
      exact hc.withServers _ _ now H
  | serverAddUnixSocketWithWeight filename weight =>
    simp only [Memcached.perform, serverAddUnixSocketWithWeight]
    split
    · split
      · exact (sameRing_setError _ _ _).bounded hc
      · rw [serverAdd_eq]
        exact hc.withServers _ _ now H
    · exact (sameRing_setError _ _ _).bounded hc
  | serverPush list =>
    simp only [Memcached.perform, serverPush, push_eq]
    exact hc.withServers _ _ now H
  | serversReset =>
    exact ⟨by simp [Memcached.perform, serversReset], fun _ h => absurd rfl h⟩
  | behaviorSet flag data => exact hc.behaviorSet H now flag data hok
  | bucketSet hostMap forwardMap buckets replicas => exact hc.bucketSet H now _ _ _ _
  | setNamespace key => exact (sameRing_setNamespace c key).bounded hc
  | setConfigurationFile filename => exact ⟨hc.index_lt, hc.ne_nil⟩
  | markForRetry serverKey nextRetry =>
    refine ⟨fun item hitem => ?_, fun hd hs => hc.ne_nil hd fun h => hs ?_⟩
    · simpa [Memcached.perform, markForRetry] using hc.index_lt item hitem
    · simp [Memcached.perform, markForRetry, h]

end

/-! ## Routing -/

/-- Every entry of the bucket map in use names a host. -/
def BucketsBounded (c : Memcached) : Prop :=
  c.distribution = .virtualBucket → ∀ virtualBucket, c.virtualBucket = some virtualBucket →
    ∀ bucket ∈ virtualBucket.buckets, bucket.master.toNat < c.serverCount

theorem continuumSearch_lt {continuum : List ContinuumItem} (hne : continuum ≠ []) (hash : UInt32) :
    continuumSearch continuum hash < continuum.length := by
  have hpos := length_pos_of_ne_nil hne
  have hle := Ring.lowerBound_le (isBelow continuum hash) continuum.length
    (Nat.zero_le continuum.length)
  simp only [continuumSearch]
  split <;> omega

theorem toNat_sub_one {size : UInt32} (hsize : size ≠ 0) : (size - 1).toNat = size.toNat - 1 := by
  have hpos : size.toNat ≠ 0 := fun h => hsize (UInt32.toNat_inj.mp h)
  exact UInt32.toNat_sub_of_le _ _ (UInt32.le_iff_toNat_le.mpr (Nat.one_le_iff_ne_zero.mpr hpos))

/-- A mask by one less than a positive number stays below the number. -/
theorem and_sub_one_lt (digest : UInt32) {size : UInt32} (hsize : size ≠ 0) :
    (digest &&& (size - 1)).toNat < size.toNat := by
  have hpos : size.toNat ≠ 0 := fun h => hsize (UInt32.toNat_inj.mp h)
  have hle : digest.toNat &&& (size.toNat - 1) ≤ size.toNat - 1 := Nat.and_le_right
  rw [UInt32.toNat_and, toNat_sub_one hsize]
  omega

theorem virtualBucketGet_lt (hs : c.servers ≠ []) (hcount : c.serverCount < 2 ^ 32)
    (hd : c.distribution = .virtualBucket) (hvb : c.BucketsBounded) (digest : UInt32) :
    ∃ i, c.virtualBucketGet digest = some i ∧ i < c.serverCount := by
  unfold virtualBucketGet
  dsimp only
  split
  · rename_i virtualBucket hsome
    have hlt := and_sub_one_lt digest virtualBucket.size_ne_zero
    rw [← virtualBucket.length_buckets] at hlt
    refine ⟨_, by rw [List.getElem?_eq_getElem hlt]; rfl, ?_⟩
    exact hvb hd virtualBucket hsome _ (getElem_mem hlt)
  · have hpos : 0 < c.serverCount := length_pos_of_ne_nil hs
    have hnat : (UInt32.ofNat c.serverCount).toNat = c.serverCount := by
      rw [UInt32.toNat_ofNat']
      exact Nat.mod_eq_of_lt hcount
    have hne : UInt32.ofNat c.serverCount ≠ 0 := fun h => by
      rw [h] at hnat
      simp at hnat
      omega
    exact ⟨_, rfl, (and_sub_one_lt digest hne).trans_eq hnat⟩

theorem Bounded.dispatchHost (hc : c.Bounded) (hs : c.servers ≠ [])
    (hcount : c.serverCount < 2 ^ 32) (hvb : c.BucketsBounded) (random : Nat) (hash : UInt32) :
    ∃ i, c.dispatchHost random hash = some i ∧ i < c.serverCount := by
  have hpos : 0 < c.serverCount := length_pos_of_ne_nil hs
  have hring : c.isConsistentDistribution = true →
      ∃ i, c.ketama.continuum[continuumSearch c.ketama.continuum hash]?.map (·.index) = some i ∧
        i < c.serverCount := fun hd => by
    have hlt := continuumSearch_lt (hc.ne_nil hd hs) hash
    exact ⟨_, by rw [List.getElem?_eq_getElem hlt]; rfl, hc.index_lt _ (getElem_mem hlt)⟩
  unfold isConsistentDistribution at hring
  unfold Memcached.dispatchHost
  cases hd : c.distribution <;> simp only [hd] at hring ⊢
  case virtualBucket => exact virtualBucketGet_lt hs hcount hd hvb hash
  case modula | consistentMax | random =>
    rw [if_neg (Nat.ne_of_gt hpos)]
    exact ⟨_, rfl, Nat.mod_lt _ hpos⟩
  all_goals exact hring trivial

theorem Bounded.regenForAutoEject (hc : c.Bounded) (H : Hashes) (now : Nat) :
    (c.regenForAutoEject H now).Bounded := by
  have hrun : (c.runDistribution H now).2.Bounded :=
    bounded_runDistribution H hc.index_lt fun hd hs => .inr (hc.ne_nil hd hs)
  unfold Memcached.regenForAutoEject
  repeat' split
  all_goals first | exact hrun | exact hc

theorem serverCount_regenForAutoEject (H : Hashes) (c : Memcached) (now : Nat) :
    (c.regenForAutoEject H now).serverCount = c.serverCount := by
  have hrun : (c.runDistribution H now).2.serverCount = c.serverCount := by
    rw [serverCount, runDistribution_servers, length_arranged, serverCount]
  unfold Memcached.regenForAutoEject
  repeat' split
  all_goals first | exact hrun | rfl

theorem BucketsBounded.regenForAutoEject (hvb : c.BucketsBounded) (H : Hashes) (now : Nat) :
    (c.regenForAutoEject H now).BucketsBounded := by
  unfold BucketsBounded
  rw [serverCount_regenForAutoEject]
  unfold Memcached.regenForAutoEject
  repeat' split
  all_goals simpa [BucketsBounded] using hvb

/-- Every routing decision names an existing server, in every client with hosts
that is reached by calls of which none selects a consistent distribution while
every host is ejected and there is no continuum, if the bucket map in use names
existing hosts. -/
theorem routing_names_existing_server (H : Hashes) (calls : List (Call × Nat))
    (hcalls : Guarded (step H) (fun c action => c.KeepsBounded action.2 action.1) create calls)
    (hs : (configured H calls).servers ≠ [])
    (hcount : (configured H calls).serverCount < 2 ^ 32)
    (hvb : (configured H calls).BucketsBounded) (now random : Nat) (key : Bytes) :
    (∃ i, (configured H calls).generateHash H random key = some i ∧
      i < (configured H calls).serverCount) ∧
    (∃ i, ((configured H calls).generateHashWithRedistribution H now random key).1 = some i ∧
      i < (configured H calls).serverCount) ∧
    ((configured H calls).isConsistentDistribution = true →
      (configured H calls).ketama.continuum ≠ [] ∧
      ((configured H calls).regenForAutoEject H now).ketama.continuum ≠ []) := by
  have hb : (configured H calls).Bounded :=
    hcalls.invariant (fun c action hc hok => hc.perform H action.2 action.1 hok) bounded_create
  generalize configured H calls = c at *
  have hb' := hb.regenForAutoEject H now
  have hcount' := serverCount_regenForAutoEject H c now
  have hs' : (c.regenForAutoEject H now).servers ≠ [] := by
    have := length_pos_of_ne_nil hs
    refine ne_nil_of_length_pos ?_
    unfold serverCount at hcount'
    omega
  refine ⟨hb.dispatchHost hs hcount hvb random _, ?_, fun hd => ⟨hb.ne_nil hd hs, hb'.ne_nil ?_ hs'⟩⟩
  · rw [← hcount'] at hcount ⊢
    exact hb'.dispatchHost hs' hcount (hvb.regenForAutoEject H now) random _
  · unfold Memcached.regenForAutoEject
    repeat' split
    all_goals simpa [isConsistentDistribution] using hd

/-- Hosts are ejected automatically, and host 0 is marked. -/
def ejectOnlyHost : List (Call × Nat) :=
  [(.behaviorSet .autoEjectHosts 1, 0), (.serverAddWithWeight ['a'.toUInt8] 0 0, 0),
    (.markForRetry 0 9, 0)]

/-- An ejected host still gets its keys while it is the only one there was when
the continuum was built. -/
theorem routing_names_existing_server_ejected :
    let calls := setKetama :: ejectOnlyHost
    (∃ i, (configured fnvHashes calls).generateHash fnvHashes 0 [] = some i ∧
      i < (configured fnvHashes calls).serverCount) ∧
    (∃ i, ((configured fnvHashes calls).generateHashWithRedistribution fnvHashes 8 0 []).1 = some i ∧
      i < (configured fnvHashes calls).serverCount) ∧
    ((configured fnvHashes calls).isConsistentDistribution = true →
      (configured fnvHashes calls).ketama.continuum ≠ [] ∧
      ((configured fnvHashes calls).regenForAutoEject fnvHashes 8).ketama.continuum ≠ []) :=
  routing_names_existing_server fnvHashes (setKetama :: ejectOnlyHost)
    (.cons (fun _ h => absurd rfl h) (.cons trivial (.cons trivial (.cons trivial .nil))))
    (by decide) (by decide) (fun h => absurd h (by decide)) 8 0 []

/-- Two ways to leave the bounds. A bucket map may name host 5 of one host. And
with the only host ejected before a consistent distribution is selected there is
no continuum to read. -/
theorem routing_leaves_bounds :
    ((configured fnvHashes [(.bucketSet (some fun _ => 5) none 1 0, 0),
        (.serverAddWithWeight ['a'.toUInt8] 0 0, 0)]).generateHash fnvHashes 0 [] = some 5 ∧
      (configured fnvHashes [(.bucketSet (some fun _ => 5) none 1 0, 0),
        (.serverAddWithWeight ['a'.toUInt8] 0 0, 0)]).serverCount = 1) ∧
    (configured fnvHashes (ejectOnlyHost ++ [setKetama])).isConsistentDistribution = true ∧
      (configured fnvHashes (ejectOnlyHost ++ [setKetama])).serverCount = 1 ∧
      (configured fnvHashes (ejectOnlyHost ++ [setKetama])).ketama.continuum = [] ∧
      (configured fnvHashes (ejectOnlyHost ++ [setKetama])).generateHash fnvHashes 0 [] = none := by
  decide +kernel

end Memcached

end LM
