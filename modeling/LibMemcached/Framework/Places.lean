import Mathlib.Data.List.Forall2

/-!
# Lists that correspond place by place

Two lists of one length whose elements are related (`List.Forall₂`), read and changed at one place;
and what a change at one place does to the concatenation of lists.
-/

namespace LM

variable {α β : Type} {R : α → β → Prop} {l : List α} {l' : List β} {k : Nat} {a : α} {b : β}

theorem forall₂_getElem? (h : List.Forall₂ R l l') (hk : l[k]? = some a) : ∃ b, l'[k]? = some b ∧ R a b := by
  induction h generalizing k with
  | nil => simp at hk
  | cons hab _ ih =>
    cases k with
    | zero =>
      simp only [List.getElem?_cons_zero, Option.some.injEq] at hk
      exact ⟨_, rfl, hk ▸ hab⟩
    | succ k => exact ih (by simpa using hk)

theorem forall₂_getElem?_right (h : List.Forall₂ R l l') (hk : l'[k]? = some b) :
    ∃ a, l[k]? = some a ∧ R a b :=
  forall₂_getElem? h.flip hk

theorem forall₂_set (h : List.Forall₂ R l l') (hab : R a b) (k : Nat) :
    List.Forall₂ R (l.set k a) (l'.set k b) := by
  induction h generalizing k with
  | nil => exact .nil
  | cons hcd ht ih =>
    cases k with
    | zero => exact .cons hab ht
    | succ k => exact .cons hcd (ih k)

theorem forall₂_append_left {l₁ l₂ : List α} (h : List.Forall₂ R (l₁ ++ l₂) l') :
    ∃ l₁' l₂', List.Forall₂ R l₁ l₁' ∧ List.Forall₂ R l₂ l₂' ∧ l' = l₁' ++ l₂' :=
  ⟨_, _, (List.forall₂_take_append _ _ _ h.flip).flip, (List.forall₂_drop_append _ _ _ h.flip).flip,
    (List.take_append_drop _ _).symm⟩

theorem flatMap_set {γ : Type} (f : α → List γ) (hk : l[k]? = some a) :
    ∃ before after, l.flatMap f = before ++ (f a ++ after) ∧
      ∀ b, (l.set k b).flatMap f = before ++ (f b ++ after) := by
  induction l generalizing k with
  | nil => simp at hk
  | cons c l ih =>
    cases k with
    | zero =>
      simp only [List.getElem?_cons_zero, Option.some.injEq] at hk
      exact ⟨[], l.flatMap f, by simp [hk], fun b => by simp⟩
    | succ k =>
      obtain ⟨before, after, hl, hset⟩ := ih (by simpa using hk)
      exact ⟨f c ++ before, after, by simp [hl], fun b => by simp [hset b]⟩

end LM
