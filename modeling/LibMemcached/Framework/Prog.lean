import Mathlib.Data.Option.Defs
import Mathlib.Order.Defs.Unbundled

/-!
# Programs with a state, and rules for them

A program (`Prog σ α`) runs on a state `σ` and returns a value with the state it leaves; `failure`
is a loop that was given too little fuel. `Ensures m s Q` says that `m`, run from `s`, does return,
and that `Q` holds of the value and the state: it is total correctness, with one rule for each way
to build a program. `Sim R E m m'` relates two runs: from states related by `R` both return (or
neither does), with values related by `E` and again in states related by `R`. `Always m s Q` is
partial correctness, for programs that may have no behaviour to speak of.
-/

namespace LM

abbrev Prog (σ α : Type) := StateT σ Option α

variable {σ τ : Type} {α β γ δ : Type} {a : α} {P : β → σ → Prop} {m m' : Prog σ α} {f : α → Prog σ β}
  {s' t : σ} {c : Prop} {Q' : α → σ → Prop} {s : σ} {n : Prog σ α}

theorem run_bind (h : m s = some (a, s')) : (m >>= f) s = f a s' := by
  simp [Bind.bind, StateT.bind, h]

/-- `m` returns from `s`, and `Q` holds of its value and of the state it leaves. -/
def Ensures (m : Prog σ α) (s : σ) (Q : α → σ → Prop) : Prop :=
  ∃ a s', m s = some (a, s') ∧ Q a s'

namespace Ensures

variable {m : Prog σ α} {f : α → Prog σ β} {s : σ} {Q Q' : α → σ → Prop}

theorem mono (h : Ensures m s Q) (hQ : ∀ a s', Q a s' → Q' a s') : Ensures m s Q' := by
  obtain ⟨a, s', hm, hq⟩ := h
  exact ⟨a, s', hm, hQ a s' hq⟩

theorem bind (h : Ensures m s Q) (hf : ∀ a s', Q a s' → Ensures (f a) s' P) : Ensures (m >>= f) s P := by
  obtain ⟨a, s', hm, hq⟩ := h
  obtain ⟨b, s'', hb, hp⟩ := hf a s' hq
  exact ⟨b, s'', by simp [Bind.bind, StateT.bind, hm, hb], hp⟩

theorem of_eq (h : m s = some (a, s')) : Ensures m s fun b t => b = a ∧ t = s' :=
  ⟨a, s', h, rfl, rfl⟩

/-- The value and the state a program returns are what its specification says of them. -/
theorem elim (h : Ensures m s Q) (hm : m s = some (a, s')) : Q a s' := by
  obtain ⟨b, t, hb, hq⟩ := h
  cases hm.symm.trans hb
  exact hq

/-- A run on a concrete state can be evaluated. -/
instance decidable [h : ∀ a s', Decidable (Q a s')] : Decidable (Ensures m s Q) :=
  match hm : m s with
  | none => isFalse fun ⟨_, _, hm', _⟩ => by simp [hm] at hm'
  | some (a, s') => decidable_of_iff (Q a s') ⟨fun hq => ⟨a, s', hm, hq⟩, fun h => h.elim hm⟩

end Ensures

variable {m : Prog σ α} {s : σ} {Q : α → σ → Prop}

@[simp] theorem ensures_pure : Ensures (pure a) s Q ↔ Q a s := by
  constructor
  · rintro ⟨b, t, h, hq⟩
    cases h
    exact hq
  · exact fun h => ⟨a, s, rfl, h⟩

@[simp] theorem ensures_bind : Ensures (m >>= f) s P ↔ Ensures m s fun a t => Ensures (f a) t P := by
  constructor
  · rintro ⟨b, u, h, hp⟩
    cases hm : m s with
    | none => simp [Bind.bind, StateT.bind, hm] at h
    | some r => exact ⟨r.1, r.2, hm, b, u, by simpa [Bind.bind, StateT.bind, hm] using h, hp⟩
  · exact fun h => h.bind fun _ _ h' => h'

@[simp] theorem ensures_map {f : α → β} : Ensures (f <$> m) s P ↔ Ensures m s fun a t => P (f a) t := by
  rw [← bind_pure_comp, ensures_bind]
  simp only [ensures_pure]

@[simp] theorem ensures_get {P : σ → σ → Prop} : Ensures get s P ↔ P s s :=
  ⟨fun ⟨_, _, h, hp⟩ => by cases h; exact hp, fun h => ⟨s, s, rfl, h⟩⟩

@[simp] theorem ensures_set {P : PUnit → σ → Prop} : Ensures (set t) s P ↔ P ⟨⟩ t :=
  ⟨fun ⟨_, _, h, hp⟩ => by cases h; exact hp, fun h => ⟨⟨⟩, t, rfl, h⟩⟩

@[simp] theorem ensures_modify {f : σ → σ} {P : PUnit → σ → Prop} : Ensures (modify f) s P ↔ P ⟨⟩ (f s) :=
  ⟨fun ⟨_, _, h, hp⟩ => by cases h; exact hp, fun h => ⟨⟨⟩, f s, rfl, h⟩⟩

theorem ensures_ite [Decidable c] (ht : c → Ensures m s Q) (hf : ¬c → Ensures m' s Q) :
    Ensures (if c then m else m') s Q := by
  split
  · exact ht ‹_›
  · exact hf ‹_›

/-! ## Partial correctness -/

/-- If `m` returns from `s`, `Q` holds of its value and of the state it leaves. -/
def Always (m : Prog σ α) (s : σ) (Q : α → σ → Prop) : Prop := ∀ a s', m s = some (a, s') → Q a s'

theorem Ensures.always (h : Ensures m s Q) : Always m s Q := fun _ _ => h.elim

/-- A program that returns, and what holds of it whenever it does. -/
theorem Ensures.and_always (h : Ensures m s Q) (h' : Always m s Q') :
    Ensures m s fun a s' => Q a s' ∧ Q' a s' := by
  obtain ⟨a, s', hm, hq⟩ := h
  exact ⟨a, s', hm, hq, h' a s' hm⟩

namespace Always

theorem bind (h : Always m s Q) (hf : ∀ a t, Q a t → Always (f a) t P) : Always (m >>= f) s P := by
  intro b u hrun
  simp only [Bind.bind, StateT.bind] at hrun
  cases hm : m s with
  | none => simp [hm] at hrun
  | some r =>
    simp only [hm, Option.bind_some] at hrun
    exact hf r.1 r.2 (h r.1 r.2 hm) b u hrun

theorem skip (hf : ∀ a t, Always (f a) t P) : Always (m >>= f) s P :=
  bind (Q := fun _ _ => True) (fun _ _ _ => trivial) fun a t _ => hf a t

theorem pure (h : Q a s) : Always (pure a) s Q := (ensures_pure.mpr h).always

theorem get_bind {f : σ → Prog σ α} (h : Always (f s) s Q) : Always (get >>= f) s Q := h

theorem set_bind {f : PUnit → Prog σ α} (h : Always (f ⟨⟩) t Q) : Always (set t >>= f) s Q := h

theorem modify {f : σ → σ} {Q : PUnit → σ → Prop} (h : Q ⟨⟩ (f s)) : Always (modify f) s Q :=
  (ensures_modify.mpr h).always

theorem failure : Always (failure : Prog σ α) s Q := by
  intro a t h
  cases h

theorem and (h : Always m s Q) (h' : Always m s Q') : Always m s fun a t => Q a t ∧ Q' a t := fun a t hm => ⟨h a t hm, h' a t hm⟩

theorem mono (h : Always m s Q) (hQ : ∀ a t, Q a t → Q' a t) : Always m s Q' :=
  fun a t hm => hQ a t (h a t hm)

theorem map {f : α → β} (h : Always m s fun a t => P (f a) t) : Always (f <$> m) s P := by
  rw [← bind_pure_comp]
  exact h.bind fun a t ht => .pure ht

theorem of_eq (hm : m s = some (a, t)) (h : Q a t) : Always m s Q := by
  intro b u hrun
  obtain ⟨rfl, rfl⟩ : a = b ∧ t = u := by simpa [hm] using hrun
  exact h

theorem eq_bind (hm : m s = some (a, t)) (h : Always (f a) t P) : Always (m >>= f) s P := by
  intro b u hrun
  rw [run_bind hm] at hrun
  exact h b u hrun

theorem ite [Decidable c] (ht : c → Always m s Q) (hf : ¬c → Always m' s Q) :
    Always (if c then m else m') s Q := by
  split
  · exact ht ‹_›
  · exact hf ‹_›

end Always

/-! ## What a program keeps -/

/-- Wherever `m` starts, it returns a value with `P`, in a state related by `R` to the one it
started in. -/
def Keeps (R : σ → σ → Prop) (P : α → Prop) (m : Prog σ α) : Prop :=
  ∀ s, Ensures m s fun a s' => P a ∧ R s s'

namespace Keeps

variable {R : σ → σ → Prop} {P : α → Prop} {P' : β → Prop}

theorem pure [Std.Refl R] (h : P a) : Keeps R P (pure a : Prog σ α) :=
  fun s => ensures_pure.mpr ⟨h, Std.Refl.refl s⟩

theorem bind [IsTrans σ R] (hm : Keeps R P m) (hf : ∀ a, P a → Keeps R P' (f a)) : Keeps R P' (m >>= f) :=
  fun s => (hm s).bind fun a t ht =>
    (hf a ht.1 t).mono fun _ _ hu => ⟨hu.1, IsTrans.trans s t _ ht.2 hu.2⟩

theorem modify {f : σ → σ} (h : ∀ s, R s (f s)) : Keeps R (fun _ => True) (modify f) :=
  fun s => ensures_modify.mpr ⟨trivial, h s⟩

theorem ite [Decidable c] (hm : Keeps R P m) (hn : Keeps R P n) : Keeps R P (if c then m else n) := by
  split
  · exact hm
  · exact hn

theorem mono {Q : α → Prop} (h : Keeps R P m) (hP : ∀ a, P a → Q a) : Keeps R Q m :=
  fun s => (h s).mono fun a _ ha => ⟨hP a ha.1, ha.2⟩

end Keeps

/-! ## Two runs -/

/-- From states related by `R` both programs return, or neither does; what they return is related
by `E`, and the states they leave again by `R`. -/
def Sim (R : σ → τ → Prop) (E : α → β → Prop) (m : Prog σ α) (m' : Prog τ β) : Prop :=
  ∀ s t, R s t → Option.Rel (fun p q => E p.1 q.1 ∧ R p.2 q.2) (m s) (m' t)

namespace Sim

variable {R : σ → τ → Prop} {E : α → β → Prop} {m : Prog σ α} {m' : Prog τ β}

theorem pure {b : β} (h : E a b) : Sim R E (pure a) (pure b) :=
  fun _ _ hR => .some ⟨h, hR⟩

theorem failure : Sim R E (failure : Prog σ α) (failure : Prog τ β) := fun _ _ _ => .none

/-- From one state a program runs in one way. -/
theorem self (m : Prog σ α) : Sim Eq Eq m m := by
  rintro s _ rfl
  cases m s with
  | none => exact .none
  | some p => exact .some ⟨rfl, rfl⟩

theorem bind {F : γ → δ → Prop} {f : α → Prog σ γ} {f' : β → Prog τ δ} (h : Sim R E m m')
    (hf : ∀ a b, E a b → Sim R F (f a) (f' b)) : Sim R F (m >>= f) (m' >>= f') := by
  intro s t hR
  have hm := h s t hR
  simp only [Bind.bind, StateT.bind]
  revert hm
  cases m s with
  | none =>
    cases m' t with
    | none => exact fun _ => .none
    | some q => exact fun hm => nomatch hm
  | some p =>
    cases m' t with
    | none => exact fun hm => nomatch hm
    | some q =>
      rintro (⟨hE, hR'⟩ | _)
      exact hf p.1 q.1 hE p.2 q.2 hR'

theorem bind_eq {E : γ → δ → Prop} {m' : Prog τ α} {f : α → Prog σ γ} {f' : α → Prog τ δ}
    (h : Sim R Eq m m') (hf : ∀ a, Sim R E (f a) (f' a)) : Sim R E (m >>= f) (m' >>= f') :=
  h.bind fun a _ hab => hab ▸ hf a

theorem returns {m' : Prog τ α} (h : Sim R Eq m m') {t : τ} (hR : R s t) {Q : α → σ → Prop}
    (hm : Ensures m s Q) : ∃ a s' t', m s = some (a, s') ∧ m' t = some (a, t') ∧ R s' t' := by
  obtain ⟨a, s', hrun, -⟩ := hm
  have hsim := h s t hR
  rw [hrun] at hsim
  generalize m' t = r at hsim ⊢
  rcases hsim with ⟨hab, hR'⟩ | _
  rename_i q
  obtain ⟨b, t'⟩ := q
  obtain rfl : a = b := hab
  exact ⟨a, s', t', hrun, rfl, hR'⟩

theorem get_bind {f : σ → Prog σ α} {f' : τ → Prog τ β}
    (h : ∀ s t, R s t → Option.Rel (fun p q => E p.1 q.1 ∧ R p.2 q.2) (f s s) (f' t t)) :
    Sim R E (get >>= f) (get >>= f') := h

theorem get : Sim R R get get := fun _ _ hR => .some ⟨hR, hR⟩

theorem modify {f : σ → σ} {g : τ → τ} (h : ∀ s t, R s t → R (f s) (g t)) :
    Sim R (fun _ _ => True) (modify f) (modify g) :=
  fun s t hR => .some ⟨trivial, h s t hR⟩

theorem ite {d : Prop} [Decidable c] [Decidable d] {n' : Prog τ β} (hcd : c ↔ d) (ht : c → Sim R E m m')
    (hf : ¬c → Sim R E n n') : Sim R E (if c then m else n) (if d then m' else n') := by
  by_cases hc : c
  · rw [if_pos hc, if_pos (hcd.mp hc)]
    exact ht hc
  · rw [if_neg hc, if_neg (fun hd => hc (hcd.mpr hd))]
    exact hf hc

/-- Two total specifications that agree give a simulation. -/
theorem of_ensures (h : ∀ s t, R s t → ∃ Q Q', Ensures m s Q ∧ Ensures m' t Q' ∧
    ∀ a s' b t', Q a s' → Q' b t' → E a b ∧ R s' t') : Sim R E m m' := by
  intro s t hR
  obtain ⟨Q, Q', ⟨a, s', hm, hq⟩, ⟨b, t', hm', hq'⟩, hE⟩ := h s t hR
  rw [hm, hm']
  exact .some (hE a s' b t' hq hq')

end Sim

end LM
