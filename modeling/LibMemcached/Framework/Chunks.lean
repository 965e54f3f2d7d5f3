import LibMemcached.Framework.Run
import Mathlib.Algebra.Ring.Nat

/-!
# Streams that arrive in chunks

A `Cutter` takes one unit from the front of the data if it is there completely, whatever follows it.
A consumer hands the units to a step function until there is no complete one left, or the step
function ends the stream, and keeps the rest; with the next chunk it goes on from there. The state it
ends in, the units it has seen and what it keeps do not depend on how the stream was cut
(`Cutter.feed_flatten`). It may also keep the rest and the state in another form, as long as it goes on
in the same way (`Cutter.Alike`).
-/

namespace LM

variable {α υ σ : Type*} {data a b : List α} {s : σ} {ω : Type*} {fuel : Nat} {rest : List α} {unit : υ}
  {observe : σ → ω} {suffix : List α}

/-- A way to take the next unit from the front of the data. -/
structure Cutter (α υ : Type*) where
  next : List α → Option (υ × List α)
  shorter : ∀ {data unit rest}, next data = some (unit, rest) → rest.length < data.length
  stable : ∀ {data unit rest} (more : List α), next data = some (unit, rest) →
    next (data ++ more) = some (unit, rest ++ more)

/-- What a consumer has come to: whether the stream has ended, what is kept, and the state. -/
structure Consumed (α σ : Type*) where
  ended : Bool
  tail : List α
  state : σ

namespace Cutter

variable (C : Cutter α υ) (step : σ → υ → Bool × σ)

/-- Units are taken while they are complete, at most `fuel` of them. -/
def consumeFor : Nat → List α → σ → Consumed α σ
  | 0, data, s => ⟨false, data, s⟩
  | fuel + 1, data, s =>
    match C.next data with
    | none => ⟨false, data, s⟩
    | some (unit, rest) =>
      match step s unit with
      | (true, s) => ⟨true, [], s⟩
      | (false, s) => consumeFor fuel rest s

/-- All complete units are taken. -/
def consume (data : List α) (s : σ) : Consumed α σ := C.consumeFor step data.length data s

/-- A chunk arrives. -/
def feed (c : Consumed α σ) (chunk : List α) : Consumed α σ :=
  if c.ended then c else C.consume step (c.tail ++ chunk) c.state

/-- What is left of the data at each boundary between units, at most `fuel` of them. -/
def suffixesFor : Nat → List α → List (List α)
  | 0, data => [data]
  | fuel + 1, data =>
    data :: match C.next data with
      | none => []
      | some (_, rest) => suffixesFor fuel rest

/-- What is left of the data at each boundary between units. -/
def suffixes (data : List α) : List (List α) := C.suffixesFor data.length data

variable {C step}

theorem next_nil : C.next [] = none := by
  cases h : C.next [] with
  | none => rfl
  | some p => exact absurd (C.shorter h) (Nat.not_lt_zero _)

/-- What holds without a complete unit, and with one if it holds behind it, holds of all data. -/
@[elab_as_elim] theorem induct {motive : List α → Prop} (C : Cutter α υ)
    (none : ∀ data, C.next data = none → motive data)
    (some : ∀ data unit rest, C.next data = some (unit, rest) → motive rest → motive data)
    (data : List α) : motive data := by
  induction hd : data.length using Nat.strongRecOn generalizing data with
  | ind n ih =>
    cases hn : C.next data with
    | none => exact none data hn
    | some p => exact some data p.1 p.2 hn (ih _ (hd ▸ C.shorter hn) p.2 rfl)

/-- There are never more units than elements. -/
theorem consumeFor_eq (s : σ) (h : data.length ≤ fuel) :
    C.consumeFor step fuel data s = C.consume step data s := by
  suffices ∀ fuel fuel' (s : σ), data.length ≤ fuel → data.length ≤ fuel' →
      C.consumeFor step fuel data s = C.consumeFor step fuel' data s from
    this _ _ _ h (Nat.le_refl _)
  clear h s
  induction data using C.induct with
  | none data hn =>
    intro fuel fuel' s h h'
    cases fuel <;> cases fuel' <;> simp only [consumeFor, hn]
  | some data unit rest hn ih =>
    intro fuel fuel' s h h'
    have hs := C.shorter hn
    obtain ⟨fuel, rfl⟩ : ∃ n, fuel = n + 1 := ⟨fuel - 1, by omega⟩
    obtain ⟨fuel', rfl⟩ : ∃ n, fuel' = n + 1 := ⟨fuel' - 1, by omega⟩
    simp only [consumeFor, hn]
    cases step s unit with
    | mk ended s' =>
      cases ended with
      | true => rfl
      | false => exact ih fuel fuel' s' (by omega) (by omega)

theorem consume_of_none (s : σ) (h : C.next data = none) : C.consume step data s = ⟨false, data, s⟩ := by
  rw [consume]
  cases data.length with
  | zero => rfl
  | succ fuel => rw [consumeFor, h]

theorem consume_of_some (s : σ) (h : C.next data = some (unit, rest)) : C.consume step data s =
      if (step s unit).1 then ⟨true, [], (step s unit).2⟩ else C.consume step rest (step s unit).2 := by
  have hs := C.shorter h
  rw [← consumeFor_eq s (Nat.le_refl _), show data.length = data.length - 1 + 1 by omega, consumeFor, h]
  cases hst : step s unit with
  | mk ended s' =>
    cases ended with
    | true => simp [hst]
    | false =>
      simp only [hst, Bool.false_eq_true, if_false]
      exact consumeFor_eq s' (by omega)

/-- At the end of the stream nothing is kept. -/
theorem consume_ended (h : (C.consume step data s).ended = true) : (C.consume step data s).tail = [] := by
  induction data using C.induct generalizing s with
  | none data hn =>
    rw [consume_of_none s hn] at h
    cases h
  | some data unit rest hn ih =>
    rw [consume_of_some s hn] at h ⊢
    by_cases he : (step s unit).1 = true
    · rw [if_pos he]
    · rw [if_neg he] at h ⊢
      exact ih h

/-- What is kept has no complete unit. -/
theorem consume_tail (h : (C.consume step data s).ended = false) :
    C.next (C.consume step data s).tail = none := by
  induction data using C.induct generalizing s with
  | none data hn => rw [consume_of_none s hn, hn]
  | some data unit rest hn ih =>
    rw [consume_of_some s hn] at h ⊢
    by_cases he : (step s unit).1 = true
    · rw [if_pos he] at h
      cases h
    · rw [if_neg he] at h ⊢
      exact ih h

/-- Taking units from the beginning first makes no difference. -/
theorem consume_append (data more : List α) (s : σ) :
    C.consume step (data ++ more) s = C.feed step (C.consume step data s) more := by
  induction data using C.induct generalizing s with
  | none data hn => rw [consume_of_none s hn, feed, if_neg Bool.false_ne_true]
  | some data unit rest hn ih =>
    rw [consume_of_some s hn, consume_of_some s (C.stable more hn)]
    split
    · simp [feed]
    · exact ih _

/-- The chunks of a stream lead to where the stream itself leads. -/
theorem feed_flatten {chunks : List (List α)} (c : Consumed α σ)
    (hc : c.ended = false → C.next c.tail = none) :
    runFrom (C.feed step) c chunks = C.feed step c chunks.flatten := by
  induction chunks generalizing c with
  | nil =>
    cases he : c.ended with
    | true => simp [feed, he]
    | false =>
      rw [runFrom_nil, List.flatten_nil, feed, he, if_neg Bool.false_ne_true, List.append_nil,
        consume_of_none _ (hc he), ← he]
  | cons chunk chunks ih =>
    rw [runFrom_cons, List.flatten_cons]
    cases he : c.ended with
    | true =>
      have hf : ∀ chunk, C.feed step c chunk = c := fun _ => by rw [feed, if_pos he]
      rw [hf chunk, ih c hc, hf, hf]
    | false =>
      have hf : ∀ chunk, C.feed step c chunk = C.consume step (c.tail ++ chunk) c.state :=
        fun _ => by rw [feed, he, if_neg Bool.false_ne_true]
      rw [ih _ (by rw [hf]; exact consume_tail), hf chunk, hf (chunk ++ chunks.flatten),
        ← List.append_assoc]
      exact (consume_append _ _ _).symm

/-! ## Data that is kept in another form -/

variable (C) in
/-- Data that cannot be told from other data by what is taken from it, now or later. -/
def Same (a b : List α) : Prop := ∀ more, C.next (a ++ more) = C.next (b ++ more)

theorem Same.refl (a : List α) : C.Same a a := fun _ => rfl

theorem Same.trans {c : List α} (h : C.Same a b) (h' : C.Same b c) : C.Same a c :=
  fun more => (h more).trans (h' more)

theorem Same.append (h : C.Same a b) (more : List α) : C.Same (a ++ more) (b ++ more) := fun more' => by
  rw [List.append_assoc, List.append_assoc]
  exact h _

theorem Same.next (h : C.Same a b) : C.next a = C.next b := by
  have := h []
  rwa [List.append_nil, List.append_nil] at this

variable (C step) in
/-- Two consumers that go on in the same way, with the same observation of their states. -/
structure Alike {ω : Type*} (observe : σ → ω) (c d : Consumed α σ) : Prop where
  ended : c.ended = d.ended
  observed : observe c.state = observe d.state
  same : c.ended = false → C.Same c.tail d.tail
  next : c.ended = false → ∀ more unit rest, C.next (d.tail ++ more) = some (unit, rest) →
    step c.state unit = step d.state unit

theorem Alike.refl (observe : σ → ω) (c : Consumed α σ) : C.Alike step observe c c :=
  ⟨rfl, rfl, fun _ => .refl _, fun _ _ _ _ _ => rfl⟩

theorem Alike.trans {c d e : Consumed α σ} (h : C.Alike step observe c d) (h' : C.Alike step observe d e) :
    C.Alike step observe c e where
  ended := h.ended.trans h'.ended
  observed := h.observed.trans h'.observed
  same he := (h.same he).trans (h'.same (h.ended ▸ he))
  next he more unit rest hn :=
    (h.next he more unit rest ((h'.same (h.ended ▸ he) more).trans hn)).trans
      (h'.next (h.ended ▸ he) more unit rest hn)

theorem Alike.feed {c d : Consumed α σ} (h : C.Alike step observe c d) (chunk : List α) :
    C.Alike step observe (C.feed step c chunk) (C.feed step d chunk) := by
  rw [Cutter.feed, Cutter.feed, h.ended]
  cases he : d.ended with
  | true => exact h
  | false =>
    have hc : c.ended = false := h.ended.trans he
    have hsame := (h.same hc).append chunk
    rw [if_neg Bool.false_ne_true, if_neg Bool.false_ne_true]
    cases hn : C.next (d.tail ++ chunk) with
    | none =>
      rw [consume_of_none _ hn, consume_of_none _ (hsame.next.trans hn)]
      refine ⟨rfl, h.observed, fun _ => hsame, fun _ more unit rest hmore => ?_⟩
      rw [List.append_assoc] at hmore
      exact h.next hc _ unit rest hmore
    | some p =>
      obtain ⟨unit, rest⟩ := p
      rw [consume_of_some _ hn, consume_of_some _ (hsame.next.trans hn), h.next hc _ unit rest hn]
      exact .refl observe _

/-! ## Boundaries -/

theorem suffixesFor_eq (h : data.length ≤ fuel) : C.suffixesFor fuel data = C.suffixes data := by
  suffices ∀ fuel fuel', data.length ≤ fuel → data.length ≤ fuel' →
      C.suffixesFor fuel data = C.suffixesFor fuel' data from this _ _ h (Nat.le_refl _)
  clear h
  induction data using C.induct with
  | none data hn =>
    intro fuel fuel' h h'
    cases fuel <;> cases fuel' <;> simp only [suffixesFor, hn]
  | some data unit rest hn ih =>
    intro fuel fuel' h h'
    have hs := C.shorter hn
    obtain ⟨fuel, rfl⟩ : ∃ n, fuel = n + 1 := ⟨fuel - 1, by omega⟩
    obtain ⟨fuel', rfl⟩ : ∃ n, fuel' = n + 1 := ⟨fuel' - 1, by omega⟩
    simp only [suffixesFor, hn, ih fuel fuel' (by omega) (by omega)]

theorem mem_suffixes_self (data : List α) : data ∈ C.suffixes data := by
  rw [suffixes]
  cases data.length <;> exact List.mem_cons_self

theorem suffixes_of_some (h : C.next data = some (unit, rest)) :
    C.suffixes data = data :: C.suffixes rest := by
  have hs := C.shorter h
  rw [suffixes, show data.length = data.length - 1 + 1 by omega, suffixesFor, h]
  exact congrArg _ (suffixesFor_eq (by omega))

theorem append_mem_suffixes (more : List α) (h : suffix ∈ C.suffixes data) :
    suffix ++ more ∈ C.suffixes (data ++ more) := by
  induction data using C.induct with
  | none data hn =>
    have hself : C.suffixes data = [data] := by
      rw [suffixes]
      cases data.length <;> simp only [suffixesFor, hn]
    rw [hself, List.mem_singleton] at h
    exact h ▸ mem_suffixes_self _
  | some data unit rest hn ih =>
    rw [suffixes_of_some (C.stable more hn)]
    rw [suffixes_of_some hn] at h
    rcases List.mem_cons.mp h with rfl | h
    · exact List.mem_cons_self
    · exact List.mem_cons_of_mem _ (ih h)

/-- Behind what was consumed, the boundaries are those of the stream. -/
theorem suffixes_tail_subset {more : List α} (h : (C.consume step data s).ended = false)
    (hm : suffix ∈ C.suffixes ((C.consume step data s).tail ++ more)) :
    suffix ∈ C.suffixes (data ++ more) := by
  induction data using C.induct generalizing s with
  | none data hn => rwa [consume_of_none s hn] at hm
  | some data unit rest hn ih =>
    rw [consume_of_some s hn] at h hm
    by_cases he : (step s unit).1 = true
    · rw [if_pos he] at h
      cases h
    · rw [if_neg he] at h hm
      rw [suffixes_of_some (C.stable more hn)]
      exact List.mem_cons_of_mem _ (ih h hm)

/-- An invariant that every unit of the data keeps holds in the end. -/
theorem consume_invariant {P : σ → Prop} (h0 : P s)
    (hstep : ∀ suffix ∈ C.suffixes data, ∀ unit rest, C.next suffix = some (unit, rest) → ∀ s, P s → P (step s unit).2) :
    P (C.consume step data s).state := by
  induction data using C.induct generalizing s with
  | none data hn => rwa [consume_of_none s hn]
  | some data unit rest hn ih =>
    have h1 := hstep data (mem_suffixes_self _) unit rest hn s h0
    rw [consume_of_some s hn]
    by_cases he : (step s unit).1 = true
    · rwa [if_pos he]
    · rw [if_neg he]
      refine ih h1 fun suffix hs => hstep suffix ?_
      rw [suffixes_of_some hn]
      exact List.mem_cons_of_mem _ hs

/-! ## Blocks -/

variable {n : Nat} [NeZero n] {f : σ → List α → σ}

/-- Blocks of `n` elements. -/
def ofLength (n : Nat) [NeZero n] : Cutter α (List α) where
  next data := if n ≤ data.length then some (data.take n, data.drop n) else none
  shorter h := by
    have hn := Nat.pos_of_neZero n
    split at h <;> cases h
    rw [List.length_drop]
    omega
  stable more h := by
    split at h <;> cases h
    rename_i hle
    rw [if_pos (by rw [List.length_append]; omega), List.take_append_of_le_length hle,
      List.drop_append_of_le_length hle]

/-- The state behind the whole blocks, and what is left. -/
def blocks (n : Nat) [NeZero n] (f : σ → List α → σ) (data : List α) (s : σ) : Consumed α σ :=
  (ofLength n).consume (fun s block => (false, f s block)) data s

theorem blocks_of_lt (h : data.length < n) : blocks n f data s = ⟨false, data, s⟩ :=
  consume_of_none s (if_neg (Nat.not_le_of_lt h))

theorem blocks_of_le (h : n ≤ data.length) : blocks n f data s = blocks n f (data.drop n) (f s (data.take n)) := by
  rw [blocks, consume_of_some s (if_pos h), if_neg Bool.false_ne_true, blocks]

theorem blocks_spec (data : List α) (s : σ) :
    (blocks n f data s).ended = false ∧ (blocks n f data s).tail.length = data.length % n := by
  induction data using (ofLength n).induct generalizing s with
  | none data hn =>
    have hlt : data.length < n := Nat.lt_of_not_le fun hle => by cases (if_pos hle).symm.trans hn
    rw [blocks_of_lt hlt]
    exact ⟨rfl, (Nat.mod_eq_of_lt hlt).symm⟩
  | some data unit rest hn ih =>
    simp only [ofLength] at hn
    split at hn <;> cases hn
    rename_i hle
    rw [blocks_of_le hle, Nat.mod_eq_sub_mod hle, ← List.length_drop]
    exact ih _

/-- What is left is taken with what comes next. -/
theorem blocks_append (data more : List α) (s : σ) : blocks n f (data ++ more) s =
    blocks n f ((blocks n f data s).tail ++ more) (blocks n f data s).state := by
  rw [blocks, consume_append, feed, if_neg (by rw [← blocks, (blocks_spec data s).1]; decide)]
  rfl

end Cutter

end LM
