import Mathlib.Tactic.TypeStar

/-!
# Runs of a state machine

A machine is a step function `step : σ → α → σ`. A run is guarded when each of
its actions meets a condition in the state it is taken in. An invariant that
every guarded step keeps holds after every guarded run (`Guarded.invariant`), and
likewise for a relation between two machines that take the same actions
(`Guarded.simulation`).
-/

namespace LM

variable {σ τ α : Type*} {s : σ} {actions : List α} {inv : σ → Prop}

/-- The state after a list of actions. -/
def runFrom (step : σ → α → σ) (s : σ) (actions : List α) : σ := actions.foldl step s

@[simp] theorem runFrom_nil (step : σ → α → σ) (s : σ) : runFrom step s [] = s := rfl

@[simp] theorem runFrom_cons (step : σ → α → σ) (s : σ) (a : α) (actions : List α) :
    runFrom step s (a :: actions) = runFrom step (step s a) actions := rfl

/-- Each action meets the condition `ok` in the state it is taken in. -/
def Guarded (step : σ → α → σ) (ok : σ → α → Prop) (s : σ) : List α → Prop
  | [] => True
  | a :: actions => ok s a ∧ Guarded step ok (step s a) actions

variable {step : σ → α → σ} {ok : σ → α → Prop}

theorem Guarded.nil : Guarded step ok s [] := trivial

theorem Guarded.cons {a : α} (h : ok s a) (h' : Guarded step ok (step s a) actions) :
    Guarded step ok s (a :: actions) := ⟨h, h'⟩

theorem Guarded.imp {ok' : σ → α → Prop} (himp : ∀ s a, ok s a → ok' s a) (h : Guarded step ok s actions) :
    Guarded step ok' s actions := by
  induction actions generalizing s with
  | nil => exact .nil
  | cons a actions ih => exact .cons (himp s a h.1) (ih h.2)

theorem Guarded.and {P : α → Prop} (h : Guarded step ok s actions) (hP : ∀ a ∈ actions, P a) :
    Guarded step (fun s a => P a ∧ ok s a) s actions := by
  induction actions generalizing s with
  | nil => exact .nil
  | cons a actions ih =>
    exact .cons ⟨hP a List.mem_cons_self, h.1⟩ (ih h.2 fun b hb => hP b (List.mem_cons_of_mem _ hb))

/-- A relation between two machines that every guarded step keeps holds after
every guarded run. -/
theorem Guarded.simulation {step' : τ → α → τ} {R : σ → τ → Prop}
    (hstep : ∀ s t a, R s t → ok s a → R (step s a) (step' t a)) {t : τ} (h : Guarded step ok s actions)
    (h0 : R s t) : R (runFrom step s actions) (runFrom step' t actions) := by
  induction actions generalizing s t with
  | nil => exact h0
  | cons a actions ih => exact ih h.2 (hstep s t a h0 h.1)

theorem runFrom_invariant (hstep : ∀ s a, inv s → inv (step s a)) (actions : List α) (h0 : inv s) :
    inv (runFrom step s actions) := by
  induction actions generalizing s with
  | nil => exact h0
  | cons a actions ih => exact ih (hstep s a h0)

/-- An invariant that every guarded step keeps holds after every guarded run. -/
theorem Guarded.invariant (hstep : ∀ s a, inv s → ok s a → inv (step s a)) (h : Guarded step ok s actions)
    (h0 : inv s) : inv (runFrom step s actions) := by
  induction actions generalizing s with
  | nil => exact h0
  | cons a actions ih => exact ih h.2 (hstep s a h0 h.1)

end LM
