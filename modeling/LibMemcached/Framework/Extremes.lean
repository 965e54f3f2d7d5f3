import Mathlib.Data.List.Basic

/-!
# Running extremes

What a loop over a list keeps of the extremes it has met: the first greatest value, and the least value where zero is
taken for none.
-/

namespace LM

variable {α : Type} {f : α → Nat} {done : List α} {i best : Nat}

/-- The place `i` is the first with the greatest value; it is 0 as long as there is none. -/
def Leads (f : α → Nat) (done : List α) (i best : Nat) : Prop :=
  (done = [] ∧ i = 0 ∧ best = 0) ∨ ∃ s, done[i]? = some s ∧ f s = best ∧ (∀ t ∈ done, f t ≤ best) ∧
    ∀ j < i, ∀ t, done[j]? = some t → f t < best

/-- The place `i` has the least value, if no value is zero; otherwise it is the least since the last zero. -/
def Lowest (f : α → Nat) (done : List α) (i best : Nat) : Prop :=
  (done = [] ∧ i = 0 ∧ best = 0) ∨ ∃ s last, done[i]? = some s ∧ f s = best ∧ done.getLast? = some last ∧
    (best = 0 ↔ f last = 0) ∧ ((∀ t ∈ done, f t ≠ 0) → ∀ t ∈ done, best ≤ f t)

theorem getElem?_concat {s : α} (h : done[i]? = some s) (t : α) : (done ++ [t])[i]? = some s := by
  obtain ⟨hi, -⟩ := List.getElem?_eq_some_iff.mp h
  rw [List.getElem?_append_left hi, h]

theorem Leads.step (h : Leads f done i best) (s : α) :
    Leads f (done ++ [s]) (if best < f s then done.length else i) (if best < f s then f s else best) := by
  refine .inr ?_
  rcases h with ⟨rfl, rfl, rfl⟩ | ⟨m, hm, rfl, hmax, hfirst⟩
  · refine ⟨s, by simp, ?_, ?_, ?_⟩
    · split <;> omega
    · simp only [List.nil_append, List.mem_singleton, forall_eq]
      split <;> omega
    · simp
  · split
    · next hlt =>
      refine ⟨s, by simp, rfl, fun t ht => ?_, fun j hj t ht => ?_⟩
      · rcases List.mem_append.mp ht with ht | ht
        · have := hmax t ht
          omega
        · obtain rfl := List.mem_singleton.mp ht
          exact Nat.le_refl _
      · rw [List.getElem?_append_left hj] at ht
        have := hmax t (List.mem_of_getElem? ht)
        omega
    · next hle =>
      refine ⟨m, getElem?_concat hm s, rfl, fun t ht => ?_, fun j hj t ht => ?_⟩
      · rcases List.mem_append.mp ht with ht | ht
        · exact hmax t ht
        · rw [List.mem_singleton.mp ht]
          omega
      · obtain ⟨hi, -⟩ := List.getElem?_eq_some_iff.mp hm
        rw [List.getElem?_append_left (by omega)] at ht
        exact hfirst j hj t ht

theorem Lowest.step (h : Lowest f done i best) (s : α) :
    Lowest f (done ++ [s]) (if best = 0 ∨ f s < best then done.length else i)
      (if best = 0 ∨ f s < best then f s else best) := by
  refine .inr ?_
  rcases h with ⟨rfl, rfl, rfl⟩ | ⟨m, last, hm, rfl, hlast, hzero, hmin⟩
  · exact ⟨s, s, by simp, by simp, by simp, by simp, by simp⟩
  · split
    · next hnew =>
      refine ⟨s, s, by simp, rfl, by simp, Iff.rfl, fun hnone t ht => ?_⟩
      have hbefore (t : α) (ht : t ∈ done) : f t ≠ 0 := hnone t (List.mem_append_left _ ht)
      rcases List.mem_append.mp ht with ht | ht
      · have := hmin hbefore t ht
        have := hbefore last (List.mem_of_getLast? hlast)
        omega
      · obtain rfl := List.mem_singleton.mp ht
        exact Nat.le_refl _
    · next hold =>
      refine ⟨m, s, getElem?_concat hm s, rfl, by simp, ?_, fun hnone t ht => ?_⟩
      · omega
      · rcases List.mem_append.mp ht with ht | ht
        · exact hmin (fun t ht => hnone t (List.mem_append_left _ ht)) t ht
        · rw [List.mem_singleton.mp ht]
          omega

end LM
