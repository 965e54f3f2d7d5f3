import Mathlib.Tactic.TypeStar

/-!
# Traces

The steps of a machine have labels, but for the silent ones. `Trace step silent s labels t` says that the
machine can go from `s` to `t`, and that `labels` are those of its steps, in their order.
-/

namespace LM

variable {σ ι : Type*} {l : ι}

/-- The machine goes from one state to another by steps with these labels, among silent ones. -/
inductive Trace (step : ι → σ → σ → Prop) (silent : σ → σ → Prop) : σ → List ι → σ → Prop where
  | nil (s : σ) : Trace step silent s [] s
  | silent {s t u : σ} {labels : List ι} (h : silent s t) (rest : Trace step silent t labels u) :
    Trace step silent s labels u
  | step {s t u : σ} {l : ι} {labels : List ι} (h : step l s t) (rest : Trace step silent t labels u) :
    Trace step silent s (l :: labels) u

namespace Trace

variable {step : ι → σ → σ → Prop} {silent : σ → σ → Prop} {s t u : σ} {labels labels' : List ι}

theorem append (h : Trace step silent s labels t) (h' : Trace step silent t labels' u) :
    Trace step silent s (labels ++ labels') u := by
  induction h with
  | nil => exact h'
  | silent hstep _ ih => exact .silent hstep (ih h')
  | step hstep _ ih => exact .step hstep (ih h')

theorem snoc (h : Trace step silent s labels t) (hstep : step l t u) :
    Trace step silent s (labels ++ [l]) u := h.append (.step hstep (.nil u))

theorem cut (h : Trace step silent s (labels ++ labels') u) :
    ∃ t, Trace step silent s labels t ∧ Trace step silent t labels' u := by
  generalize hall : labels ++ labels' = all at h
  induction h generalizing labels with
  | nil s =>
    obtain ⟨rfl, rfl⟩ := List.append_eq_nil_iff.mp hall
    exact ⟨s, .nil s, .nil s⟩
  | silent hstep _ ih =>
    obtain ⟨t, h1, h2⟩ := ih hall
    exact ⟨t, .silent hstep h1, h2⟩
  | @step s _ _ l _ hstep rest ih =>
    cases labels with
    | nil =>
      rw [List.nil_append] at hall
      subst hall
      exact ⟨s, .nil s, .step hstep rest⟩
    | cons l' labels =>
      obtain ⟨rfl, hrest⟩ := List.cons.inj hall
      obtain ⟨t, h1, h2⟩ := ih hrest
      exact ⟨t, .step hstep h1, h2⟩

theorem first (h : Trace step silent s (l :: labels) u) :
    ∃ t t', Trace step silent s [] t ∧ step l t t' ∧ Trace step silent t' labels u := by
  generalize hall : l :: labels = all at h
  induction h with
  | nil => cases hall
  | silent hstep _ ih =>
    obtain ⟨t, t', h1, h2⟩ := ih hall
    exact ⟨t, t', .silent hstep h1, h2⟩
  | step hstep rest _ =>
    obtain ⟨rfl, rfl⟩ := List.cons.inj hall
    exact ⟨_, _, .nil _, hstep, rest⟩

theorem mono {silent' : σ → σ → Prop} (hsilent : ∀ s t, silent s t → silent' s t)
    (h : Trace step silent s labels u) : Trace step silent' s labels u := by
  induction h with
  | nil s => exact .nil s
  | silent hstep _ ih => exact .silent (hsilent _ _ hstep) ih
  | step hstep _ ih => exact .step hstep ih

end Trace

/-- A list is cut in one way only at an element with a number that no other has. -/
theorem cut_unique {α β : Type*} {f : α → Option β} {b : β} {before before' after after' : List α} {a a' : α}
    (hnodup : ((before ++ a :: after).filterMap f).Nodup) (heq : before ++ a :: after = before' ++ a' :: after')
    (ha : f a = some b) (ha' : f a' = some b) : a = a' ∧ after = after' := by
  have hfirst {x y : α} {between l l' : List α} (hx : f x = some b) (hy : f y = some b)
      (hn : ((x :: l).filterMap f).Nodup) (h : x :: l = between ++ y :: l') : x = y ∧ l = l' := by
    cases between with
    | nil => exact List.cons.inj h
    | cons z between =>
      obtain ⟨rfl, rfl⟩ := List.cons.inj h
      rw [List.filterMap_cons_some hx] at hn
      exact absurd (List.mem_filterMap.mpr ⟨y, by simp, hy⟩) (List.nodup_cons.mp hn).1
  have hlater {l m : List α} (h : ((l ++ m).filterMap f).Nodup) : (m.filterMap f).Nodup :=
    h.sublist ((List.sublist_append_right l m).filterMap f)
  rcases List.append_eq_append_iff.mp heq with ⟨between, -, h⟩ | ⟨between, -, h⟩
  · exact hfirst ha ha' (hlater hnodup) h
  · exact (hfirst ha' ha (hlater (heq ▸ hnodup)) h).imp .symm .symm

end LM
