import Mathlib.Data.List.Sort

/-!
# Rings of points

A ring is a list of points, each with a value in a linear order. A value is
looked up at the first point whose value is not below it, and at the first
point of the ring when there is none (the ring wraps around).

* `lookup_filter`: taking points off the ring moves no value that was looked
  up at a point that stays;
* `lookup_eq_getElem?`: the lookup is the point that a lower-bound search ends
  at;
* `insertionSort_filter`: sorting commutes with taking points off, so the two
  facts above apply to a ring that is built anew and sorted.
-/

namespace LM.Ring

variable {α β : Type*} [LinearOrder β] {h : β} {ring : List α} {value : α → β} {x : α} {right left : Nat}
  {below : Nat → Bool}

/-- The point at which `h` is looked up: the first one whose value is not
below `h`, or the first one of the ring. -/
def lookup (value : α → β) (ring : List α) (h : β) : Option α :=
  (ring.find? fun x => decide (h ≤ value x)).or ring.head?

/-- Taking points off the ring keeps the lookups whose point stays. -/
theorem lookup_filter {p : α → Bool} (hx : lookup value ring h = some x) (hp : p x = true) :
    lookup value (ring.filter p) h = some x := by
  induction ring with
  | nil => simp [lookup] at hx
  | cons y ys ih =>
    simp only [lookup, List.find?_cons] at hx ih ⊢
    by_cases hy : h ≤ value y
    · have e : y = x := by simpa [hy] using hx
      subst e
      simp [hp, hy]
    · simp only [hy, decide_false] at hx
      rcases hf : ys.find? fun x => decide (h ≤ value x) with _ | z
      · -- no point is at `h` or above: the lookup wraps around to `y`
        have e : y = x := by simpa [hf] using hx
        subst e
        have hnone : (ys.filter p).find? (fun x => decide (h ≤ value x)) = none := by
          rw [List.find?_eq_none] at hf ⊢
          exact fun z hz => hf z (List.mem_of_mem_filter hz)
        simp [hp, hy, hnone]
      · have e : z = x := by simpa [hf] using hx
        subst e
        have hin : (ys.filter p).find? (fun x => decide (h ≤ value x)) = some z := by
          obtain ⟨hz, as, bs, rfl, has⟩ := List.find?_eq_some_iff_append.mp hf
          refine List.find?_eq_some_iff_append.mpr ⟨hz, as.filter p, bs.filter p, ?_, ?_⟩
          · simp [List.filter_append, hp]
          · exact fun a ha => has a (List.mem_of_mem_filter ha)
        rcases hpy : p y <;> simp [hpy, hy, hin]

theorem lookup_eq_none_iff : lookup value ring h = none ↔ ring = [] := by
  cases ring with
  | nil => simp [lookup]
  | cons y ys =>
    simp only [lookup, Option.or_eq_none_iff, List.head?_cons, reduceCtorEq, and_false]

theorem mem_of_lookup (hx : lookup value ring h = some x) : x ∈ ring := by
  rcases Option.or_eq_some_iff.mp hx with hf | ⟨-, hh⟩
  · exact List.mem_of_find?_eq_some hf
  · exact List.mem_of_head? hh

/-! ## Lower-bound search -/

/-- The loop of a lower-bound search over `[left, right)`: `below i` says that
entry `i` is below the value searched for. -/
def lowerBound (below : Nat → Bool) : Nat → Nat → Nat → Nat
  | 0, left, _ => left
  | fuel + 1, left, right =>
    if left < right then
      if below (left + (right - left) / 2) then
        lowerBound below fuel (left + (right - left) / 2 + 1) right
      else lowerBound below fuel left (left + (right - left) / 2)
    else left

/-- The search stays in its interval, sorted or not. -/
theorem lowerBound_le (below : Nat → Bool) (fuel : Nat) (hle : left ≤ right) :
    lowerBound below fuel left right ≤ right := by
  induction fuel generalizing left right with
  | zero => exact hle
  | succ fuel ih =>
    simp only [lowerBound]
    split
    · split
      · exact ih (by omega)
      · exact (ih (Nat.le_add_right left ((right - left) / 2))).trans (by omega)
    · exact hle

/-- The search ends at the first entry that is not below: every entry before it
is, and the entry itself, if it is one of the interval, is not. -/
theorem lowerBound_spec (hmono : ∀ i j, i ≤ j → below j → below i) {fuel : Nat} (hle : left ≤ right)
    (hfuel : right - left ≤ fuel) (hlo : ∀ i < left, below i) (hhi : ∀ i, right ≤ i → below i = false) :
    lowerBound below fuel left right ≤ right ∧ (∀ i < lowerBound below fuel left right, below i) ∧
      ∀ i, lowerBound below fuel left right ≤ i → below i = false := by
  induction fuel generalizing left right with
  | zero =>
    have e : left = right := by omega
    subst e
    exact ⟨le_rfl, hlo, hhi⟩
  | succ fuel ih =>
    simp only [lowerBound]
    split
    · rename_i hlt
      rcases hb : below (left + (right - left) / 2)
      · simp only [Bool.false_eq_true, ↓reduceIte]
        obtain ⟨h₁, h₂, h₃⟩ := ih (Nat.le_add_right left ((right - left) / 2))
          (by omega) hlo (fun i hi => by
            by_contra hc
            have := hmono _ _ hi (by simpa using hc)
            simp [hb] at this)
        exact ⟨by omega, h₂, h₃⟩
      · simp only [↓reduceIte]
        exact ih (by omega) (by omega) (fun i hi => hmono _ _ (by omega) hb) hhi
    · have e : left = right := by omega
      subst e
      exact ⟨le_rfl, hlo, hhi⟩

/-- The lookup is the point that a lower-bound search ends at, and the first
point when the search runs off the end. -/
theorem lookup_eq_getElem? (hbelow : ∀ i (hi : i < ring.length), below i = decide (value ring[i] < h))
    {r : Nat} (hr : r ≤ ring.length) (hlo : ∀ i < r, below i)
    (hhi : ∀ i, r ≤ i → i < ring.length → below i = false) :
    lookup value ring h = ring[if r = ring.length then 0 else r]? := by
  have hno : ∀ i (hi : i < ring.length), i < r → ¬ h ≤ value ring[i] := fun i hi hir => by
    have := hlo i hir
    rw [hbelow i hi] at this
    simpa using this
  rcases Nat.lt_or_eq_of_le hr with hlt | rfl
  · have hge : h ≤ value ring[r] := by
      have := hhi r le_rfl hlt
      rw [hbelow r hlt] at this
      simpa using this
    have hf : ring.find? (fun x => decide (h ≤ value x)) = some ring[r] := by
      rw [List.find?_eq_some_iff_getElem]
      exact ⟨by simpa using hge, r, hlt, rfl, fun j hj => by simpa using hno j (by omega) hj⟩
    simp [lookup, hf, Nat.ne_of_lt hlt]
  · have hf : ring.find? (fun x => decide (h ≤ value x)) = none := by
      rw [List.find?_eq_none]
      intro x hx
      obtain ⟨i, hi, rfl⟩ := List.getElem_of_mem hx
      simpa using hno i hi hi
    simp [lookup, hf, List.head?_eq_getElem?]

/-! ## Sorting -/

section Sorting

variable {r : α → α → Prop} [DecidableRel r] [Std.Total r] [IsTrans α r] [Std.Antisymm r]

theorem insertionSort_filter (p : α → Bool) (l : List α) :
    (l.insertionSort r).filter p = (l.filter p).insertionSort r := by
  refine List.Perm.eq_of_pairwise' ?_ (List.pairwise_insertionSort r _) ?_
  · exact (List.pairwise_insertionSort r l).filter p
  · exact ((List.perm_insertionSort r l).filter p).trans (List.perm_insertionSort r _).symm

end Sorting

end LM.Ring
