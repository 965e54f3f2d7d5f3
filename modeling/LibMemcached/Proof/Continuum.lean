import LibMemcached.Impl.Behavior

/-!
# The continuum is a ring

`update_continuum` builds a sorted ring of points and `dispatch_host` looks a
hash up on it. Both facts are put here in the terms of `LM.Ring`, so that what
happens to a key when points come or go is a fact about rings.
-/

namespace LM

open List

variable {continuum : List ContinuumItem} {i : Nat} {t s : Bytes} {j : Nat} {hash : UInt32}
  {item : ContinuumItem}

/-! ## The order of continuum items -/

theorem ContinuumItem.le_iff {a b : ContinuumItem} :
    a.le b ↔ a.value.toNat < b.value.toNat ∨ a.value = b.value ∧ a.index ≤ b.index := by
  simp only [ContinuumItem.le, continuumItemCmp, gt_iff_lt, UInt32.lt_iff_toNat_lt, ← UInt32.toNat_inj]
  split_ifs <;> omega

instance : Std.Total ContinuumItem.le where
  total a b := by
    simp only [ContinuumItem.le_iff, ← UInt32.toNat_inj]
    omega

instance : IsTrans ContinuumItem ContinuumItem.le where
  trans a b c := by
    simp only [ContinuumItem.le_iff, ← UInt32.toNat_inj]
    omega

instance : Std.Antisymm ContinuumItem.le where
  antisymm a b hab hba := by
    obtain ⟨i, v⟩ := a
    obtain ⟨j, w⟩ := b
    simp only [ContinuumItem.le_iff, ← UInt32.toNat_inj] at hab hba
    simp only [ContinuumItem.mk.injEq, ← UInt32.toNat_inj]
    omega

/-- The key that the ring is searched by. -/
def ContinuumItem.position (item : ContinuumItem) : Nat := item.value.toNat

/-- A continuum in the order of `continuum_item_cmp`. -/
def Sorted (continuum : List ContinuumItem) : Prop := continuum.Pairwise ContinuumItem.le

theorem Sorted.position_le (hs : Sorted continuum) (hi : i < continuum.length) (hj : j < continuum.length)
    (hij : i ≤ j) : continuum[i].position ≤ continuum[j].position := by
  rcases Nat.lt_or_eq_of_le hij with hlt | rfl
  · have h := pairwise_iff_getElem.mp hs i j hi hj hlt
    rw [ContinuumItem.le_iff, ← UInt32.toNat_inj] at h
    simp only [ContinuumItem.position]
    omega
  · exact le_rfl

namespace Memcached

/-! ## Dispatch is a lookup -/

theorem isBelow_eq (hi : i < continuum.length) :
    isBelow continuum hash i = decide (continuum[i].position < hash.toNat) := by
  simp only [isBelow, List.getElem?_eq_getElem hi]
  exact decide_eq_decide.mpr UInt32.lt_iff_toNat_lt

theorem isBelow_of_length_le (hi : continuum.length ≤ i) : isBelow continuum hash i = false := by
  simp only [isBelow, List.getElem?_eq_none hi]

/-- What is below stays below to the left, so the binary search is sound. -/
theorem isBelow_mono (hs : Sorted continuum) (hij : i ≤ j) (hj : isBelow continuum hash j = true) :
    isBelow continuum hash i = true := by
  rcases Nat.lt_or_ge j continuum.length with hlt | hge
  · rw [isBelow_eq hlt, decide_eq_true_eq] at hj
    rw [isBelow_eq (by omega), decide_eq_true_eq]
    exact (hs.position_le (by omega) hlt hij).trans_lt hj
  · simp [isBelow_of_length_le hge] at hj

/-- The binary search of `dispatch_host` finds what a walk along the ring does. -/
theorem getElem?_continuumSearch (hs : Sorted continuum) (hash : UInt32) :
    continuum[continuumSearch continuum hash]? = Ring.lookup ContinuumItem.position continuum hash.toNat := by
  obtain ⟨hle, hlo, hhi⟩ := Ring.lowerBound_spec (fun _ _ => isBelow_mono hs)
    (Nat.zero_le continuum.length) le_rfl (fun i hi => absurd hi (Nat.not_lt_zero i))
    (fun _ => isBelow_of_length_le)
  exact (Ring.lookup_eq_getElem? (fun _ => isBelow_eq) hle hlo fun i hi _ => hhi i hi).symm

theorem dispatchHost_of_sorted {ptr : Memcached} (hd : ptr.isConsistentDistribution = true)
    (hs : Sorted ptr.ketama.continuum) (random : Nat) (hash : UInt32) : ptr.dispatchHost random hash =
      (Ring.lookup ContinuumItem.position ptr.ketama.continuum hash.toNat).map (·.index) := by
  rw [← getElem?_continuumSearch hs]
  unfold isConsistentDistribution at hd
  unfold dispatchHost
  split at hd <;> simp_all

/-! ## What a rebuild leaves -/

section Rebuild

variable (H : Hashkit.Hashes) (ptr : Memcached) (now : Nat)

/-- The continuum after `update_continuum`: the points of the hosts that are not
ejected, sorted, or the old one when there is no such host. -/
def rebuiltContinuum : List ContinuumItem :=
  if ptr.liveServers now = 0 then ptr.ketama.continuum
  else (ptr.continuumPoints H now).insertionSort ContinuumItem.le

theorem updateContinuum_frame :
    ptr.updateContinuum H now =
      (.success,
        { ptr with
          ketama :=
            { continuum := ptr.rebuiltContinuum H now
              continuumCount := (ptr.updateContinuum H now).2.ketama.continuumCount
              nextDistributionRebuild := ptr.nextRebuild now
              weighted := ptr.ketama.weighted } }) := by
  by_cases h : ptr.liveServers now = 0 <;> simp [updateContinuum, rebuiltContinuum, h]

@[simp] theorem updateContinuum_continuum :
    (ptr.updateContinuum H now).2.ketama.continuum = ptr.rebuiltContinuum H now := by
  rw [updateContinuum_frame]

@[simp] theorem updateContinuum_fst : (ptr.updateContinuum H now).1 = .success := by
  rw [updateContinuum_frame]

@[simp] theorem updateContinuum_distribution :
    (ptr.updateContinuum H now).2.distribution = ptr.distribution := by
  rw [updateContinuum_frame]

/-- The settings stay. -/
@[simp] theorem updateContinuum_keeps :
    let c := (ptr.updateContinuum H now).2
    c.servers = ptr.servers ∧ c.flags = ptr.flags ∧ c.queryId = ptr.queryId ∧ c.hashkit = ptr.hashkit ∧
      c.ketama.weighted = ptr.ketama.weighted ∧ c.namespace_ = ptr.namespace_ ∧ c.filename = ptr.filename ∧
      c.virtualBucket = ptr.virtualBucket := by
  rw [updateContinuum_frame]
  simp

theorem sorted_insertionSort (points : List ContinuumItem) :
    Sorted (points.insertionSort ContinuumItem.le) :=
  pairwise_insertionSort _ _

/-! ## Points and their hosts -/

theorem index_of_mem_hostPoints {host : Instance × Nat} (h : item ∈ ptr.hostPoints H now host) :
    item.index = host.2 := by
  unfold hostPoints at h
  split at h
  · simp only [mem_flatMap, mem_map] at h
    obtain ⟨_, _, _, _, rfl⟩ := h
    rfl
  · simp only [mem_map] at h
    obtain ⟨_, _, rfl⟩ := h
    rfl

theorem host_of_mem_continuumPoints (h : item ∈ ptr.continuumPoints H now) :
    ∃ server, ptr.servers[item.index]? = some server ∧ ptr.isEjected now server = false := by
  simp only [continuumPoints, mem_flatMap, mem_filter] at h
  obtain ⟨host, ⟨hhost, hej⟩, hitem⟩ := h
  refine ⟨host.1, ?_, by simpa using hej⟩
  rw [index_of_mem_hostPoints H ptr now hitem]
  exact mem_zipIdx_iff_getElem?.mp hhost

theorem liveServers_ne_zero_iff :
    ptr.liveServers now ≠ 0 ↔ ∃ server ∈ ptr.servers, ptr.isEjected now server = false := by
  unfold liveServers isEjected serverCount
  by_cases hej : ptr.flags.autoEjectHosts = true
  · simp [hej, countP_eq_zero]
  · cases hs : ptr.servers <;> simp [hej]

end Rebuild

/-! ## Sorting the hosts -/

theorem strcmp_eq_zero_iff : strcmp s t = 0 ↔ s = t := by
  induction s generalizing t with
  | nil => cases t <;> simp [strcmp]
  | cons a s ih =>
    cases t with
    | nil => simp [strcmp]
    | cons b t =>
      by_cases hab : a = b
      · simp [strcmp, hab, ih]
      · have : a.toNat ≠ b.toNat := fun h => hab (UInt8.toNat_inj.mp h)
        simp only [strcmp, hab, if_false, List.cons.injEq, false_and, iff_false]
        omega

theorem strcmp_self (s : Bytes) : strcmp s s = 0 := strcmp_eq_zero_iff.mpr rfl

theorem strcmp_neg_iff : strcmp t s < 0 ↔ 0 < strcmp s t := by
  induction s generalizing t with
  | nil => cases t <;> simp [strcmp]
  | cons a s ih =>
    cases t with
    | nil => simp [strcmp]
    | cons b t =>
      by_cases hab : a = b
      · simp [strcmp, hab, ih]
      · simp only [strcmp, hab, Ne.symm hab, if_false]
        omega

theorem strcmp_neg_trans {u : Bytes} (hst : strcmp s t < 0) (htu : strcmp t u < 0) : strcmp s u < 0 := by
  induction s generalizing t u with
  | nil => cases u <;> cases t <;> simp_all [strcmp]
  | cons a s ih =>
    cases t with
    | nil => simp [strcmp] at hst
    | cons b t =>
      cases u with
      | nil => simp [strcmp] at htu
      | cons e u =>
        have hne : ∀ {x y : UInt8}, x ≠ y → x.toNat ≠ y.toNat := fun h h' => h (UInt8.toNat_inj.mp h')
        by_cases hab : a = b <;> by_cases hbe : b = e
        · subst hab hbe
          simp only [strcmp, if_true] at hst htu ⊢
          exact ih hst htu
        · subst hab
          simpa [strcmp, hbe] using htu
        · subst hbe
          simpa [strcmp, hab] using hst
        · simp only [strcmp, hab, hbe, if_false] at hst htu
          have hae : a ≠ e := fun h => by subst h; omega
          simp only [strcmp, hae, if_false]
          omega

theorem compareServers_le_iff {a b : Instance} : compareServers a b ≤ 0 ↔
      strcmp a.hostname b.hostname < 0 ∨ a.hostname = b.hostname ∧ a.port.toNat ≤ b.port.toNat := by
  unfold compareServers
  by_cases h : a.hostname = b.hostname
  · simp [h, strcmp_self]
  · have hne : strcmp a.hostname b.hostname ≠ 0 := fun h0 => h (strcmp_eq_zero_iff.mp h0)
    simp only [hne, h, if_false, false_and, or_false]
    omega

instance : Std.Total fun a b : Instance => compareServers a b ≤ 0 where
  total a b := by
    simp only [compareServers_le_iff, strcmp_neg_iff (s := a.hostname)]
    by_cases h : a.hostname = b.hostname
    · simp only [h, true_and]
      omega
    · have hne : strcmp a.hostname b.hostname ≠ 0 := fun h0 => h (strcmp_eq_zero_iff.mp h0)
      simp only [h, Ne.symm h, false_and, or_false]
      omega

instance : IsTrans Instance fun a b => compareServers a b ≤ 0 where
  trans a b e hab hbe := by
    rw [compareServers_le_iff] at hab hbe ⊢
    rcases hab with hab | ⟨hab, hpab⟩ <;> rcases hbe with hbe | ⟨hbe, hpbe⟩
    · exact .inl (strcmp_neg_trans hab hbe)
    · exact .inl (hbe ▸ hab)
    · exact .inl (hab ▸ hbe)
    · exact .inr ⟨hab.trans hbe, hpab.trans hpbe⟩

theorem sortHosts_sortHosts (c : Memcached) : c.sortHosts.sortHosts = c.sortHosts := by
  have := (pairwise_insertionSort (fun a b => compareServers a b ≤ 0) c.servers).insertionSort_eq
  simp only [sortHosts, this]

theorem mem_sortHosts {c : Memcached} {s : Instance} : s ∈ c.sortHosts.servers ↔ s ∈ c.servers :=
  mem_insertionSort _

/-! ## `run_distribution` -/

/-- The client with its hosts in the order that `run_distribution` wants. -/
def arranged (c : Memcached) : Memcached := if c.flags.useSortHosts then c.sortHosts else c

theorem runDistribution_eq (H : Hashkit.Hashes) (c : Memcached) (now : Nat) :
    c.runDistribution H now = if c.isConsistentDistribution then c.arranged.updateContinuum H now
      else (.success, c.arranged) := by
  unfold runDistribution isConsistentDistribution arranged
  split <;> rcases hd : c.distribution <;> simp_all [sortHosts]

section RunDistribution

variable (H : Hashkit.Hashes) (c : Memcached) (now : Nat)

@[simp] theorem arranged_flags : c.arranged.flags = c.flags := by
  unfold arranged; split <;> rfl

@[simp] theorem arranged_keeps : c.arranged.queryId = c.queryId ∧ c.arranged.distribution = c.distribution ∧
    c.arranged.hashkit = c.hashkit ∧ c.arranged.namespace_ = c.namespace_ ∧ c.arranged.filename = c.filename ∧
    c.arranged.virtualBucket = c.virtualBucket := by
  unfold arranged; split <;> simp [sortHosts]

@[simp] theorem arranged_ketama : c.arranged.ketama = c.ketama := by
  unfold arranged; split <;> rfl

theorem mem_arranged {s : Instance} : s ∈ c.arranged.servers ↔ s ∈ c.servers := by
  unfold arranged
  split
  · exact mem_sortHosts
  · exact Iff.rfl

theorem length_arranged : c.arranged.servers.length = c.servers.length := by
  unfold arranged
  split
  · exact length_insertionSort _ _
  · rfl

@[simp] theorem runDistribution_fst : (c.runDistribution H now).1 = .success := by
  rw [runDistribution_eq]; split <;> simp

@[simp] theorem runDistribution_flags : (c.runDistribution H now).2.flags = c.flags := by
  rw [runDistribution_eq]; split <;> simp

@[simp] theorem runDistribution_keeps : (c.runDistribution H now).2.queryId = c.queryId ∧
    (c.runDistribution H now).2.filename = c.filename := by
  rw [runDistribution_eq]; split <;> simp

@[simp] theorem runDistribution_distribution : (c.runDistribution H now).2.distribution = c.distribution := by
  rw [runDistribution_eq]; split <;> simp

@[simp] theorem runDistribution_hashkit : (c.runDistribution H now).2.hashkit = c.hashkit := by
  rw [runDistribution_eq]; split <;> simp

@[simp] theorem runDistribution_weighted :
    (c.runDistribution H now).2.ketama.weighted = c.ketama.weighted := by
  rw [runDistribution_eq]; split <;> simp

@[simp] theorem runDistribution_namespace : (c.runDistribution H now).2.namespace_ = c.namespace_ := by
  rw [runDistribution_eq]; split <;> simp

@[simp] theorem runDistribution_virtualBucket :
    (c.runDistribution H now).2.virtualBucket = c.virtualBucket := by
  rw [runDistribution_eq]; split <;> simp

@[simp] theorem runDistribution_servers : (c.runDistribution H now).2.servers = c.arranged.servers := by
  rw [runDistribution_eq]; split <;> simp

theorem runDistribution_continuum : (c.runDistribution H now).2.ketama.continuum =
      if c.isConsistentDistribution then c.arranged.rebuiltContinuum H now else c.ketama.continuum := by
  rw [runDistribution_eq]; split <;> simp

end RunDistribution

end Memcached

end LM
