import LibMemcached.Proof.Aes
import LibMemcached.Proof.OwnBytes

/-!
# Responses and the bounds of memory

What the readers of a response touch is read off the runs of the functions of `Impl/Footprint.lean`:

* text: a `VALUE` line stays in bounds just if its key fits into `item_key`, its numbers are looked for on
  the line and the declared length leaves room for two more bytes (`value_line_in_bounds`);
* binary: a packet stays in bounds just if its lengths agree with each other and with the buffers that are
  not measured against them (`binary_response_in_bounds`).
-/

namespace LM

open List Hashkit

variable {κ α β : Type} {K : Kernel κ} {grows : Nat → Bool} {line buffer value : Bytes} {m : Act κ α}
  {p : St κ × Footprint} {room need offset count ns size : Nat} {place : Place} {memc : Memcached}
  {text : Bytes} {P : α → Prop} {result : Result} {plain : Bytes} (length : Nat)

namespace Touch

/-! ## Runs with a record -/

theorem ensures_lift {Q : α → St κ × Footprint → Prop} (h : Ensures m p.1 fun a s => Q a (s, p.2)) :
    Ensures (lift m) p Q := by
  obtain ⟨a, s, hm, hq⟩ := h
  exact ⟨a, (s, p.2), by simp [lift, hm], hq⟩

theorem lift_spec {Q : α → St κ → Prop} (h : Ensures m p.1 Q) :
    Ensures (lift m) p fun a q => Q a q.1 ∧ q.2 = p.2 :=
  ensures_lift (h.mono fun _ _ hq => ⟨hq, rfl⟩)

theorem ioReadLoop_length_le {fuel length : Nat} {acc : List InByte} {s : St κ} :
    Always (ioReadLoop K fuel length acc) s fun r _ => r.2.length ≤ acc.length + length := by
  induction fuel generalizing length acc s with
  | zero =>
    cases length with
    | zero => exact .pure (Nat.le_refl _)
    | succ length => exact .failure
  | succ fuel ih =>
    cases length with
    | zero => exact .pure (Nat.le_refl _)
    | succ length =>
      refine .get_bind (.skip fun rc t => .ite (fun _ => .pure (Nat.le_add_right _ _)) fun _ => ?_)
      refine .get_bind (.set_bind (ih.mono fun r _ hr => ?_))
      simp only [length_append, length_take] at hr
      omega

theorem memcachedSafeRead_length_le (size : Nat) (s : St κ) :
    Always (memcachedSafeRead K size) s fun r _ => r.2.length ≤ size := by
  refine .ite (fun _ => .pure (Nat.zero_le _)) fun _ => .get_bind (.ite (fun _ => .pure (Nat.zero_le _)) fun _ => ?_)
  exact ioReadLoop_length_le.mono fun r _ hr => by simpa using hr

theorem memcachedIoRead_length_le (s : St κ) :
    Always (memcachedIoRead K length) s fun r _ => r.2.length ≤ length := by
  refine .get_bind (.ite (fun _ => .pure (Nat.zero_le _)) fun _ => ?_)
  exact ioReadLoop_length_le.mono fun r _ hr => by simpa using hr

end Touch

/-- What was touched is in bounds: of the line buffer, the first `size` bytes. -/
structure Footprint.InBounds (size : Nat) (f : Footprint) : Prop where
  reads : ∀ i ∈ f.reads, i < size
  writes : ∀ w ∈ f.writes, w.index < w.room
  lengths : ∀ n ∈ f.lengths, 0 ≤ n

theorem Footprint.InBounds.empty (size capacity : Nat) : Footprint.InBounds size { capacity := capacity } where
  reads _ h := nomatch h
  writes _ h := nomatch h
  lengths _ h := nomatch h

/-! ## The places a `VALUE` line is read at -/

namespace Touch

theorem mem_span {first last i : Nat} : i ∈ span first last ↔ first ≤ i ∧ i ≤ last := by
  rw [span, mem_range'_1]
  omega

theorem scanEnd_line (h : text.all isSpace = false) (rest : Bytes) :
    scanEnd (text ++ 10 :: rest) ≤ text.length := by
  obtain ⟨blanks, b, more, rfl, hblanks, hb⟩ : ∃ blanks b more, text = blanks ++ b :: more ∧
      (∀ b ∈ blanks, isSpace b = true) ∧ isSpace b = false :=
    split_blanks fun hall => by simp [all_eq_true.mpr hall] at h
  have hspaces : (blanks ++ b :: more ++ 10 :: rest).takeWhile isSpace = blanks := by
    rw [append_assoc, takeWhile_append_of_pos hblanks, cons_append,
      takeWhile_cons_of_neg (by simp [hb]), append_nil]
  have hdrop : (blanks ++ b :: more ++ 10 :: rest).drop blanks.length = b :: (more ++ 10 :: rest) := by
    rw [append_assoc, drop_left, cons_append]
  have hdigits (l : Bytes) : ((l ++ 10 :: rest).takeWhile isDigit).length ≤ l.length := by
    rw [takeWhile_append_stop (by decide)]
    exact ( takeWhile_prefix isDigit).length_le
  have hmore := hdigits more
  have hbmore := hdigits (b :: more)
  rw [scanEnd, hspaces, hdrop]
  simp only [length_append, length_cons] at hbmore ⊢
  split
  · rename_i heq
    obtain ⟨-, rfl⟩ := List.cons.inj heq
    simp only
    omega
  · rename_i heq
    obtain ⟨-, rfl⟩ := List.cons.inj heq
    simp only
    omega
  · rw [cons_append] at hbmore
    simp only
    omega

theorem scanEnd_blanks (h : text.all isSpace = true) : scanEnd text = text.length := by
  have hspaces : text.takeWhile isSpace = text := takeWhile_eq_self_iff.mpr (all_eq_true.mp h)
  rw [scanEnd, hspaces, drop_length]
  simp

theorem numberReads_line {p : Nat} {r : Nat × Bool} (h : numberIn line p = some r) (rest : Bytes) :
    ∀ i ∈ numberReads (line ++ 10 :: rest) p, i ≤ line.length := by
  obtain ⟨hall, hp, -⟩ := numberIn_eq_some h
  intro i hi
  have hend := scanEnd_line hall rest
  rw [numberReads, drop_line hp] at hi
  have hi := (mem_span.mp hi).2
  rw [length_drop] at hend
  omega

/-- A number of which nothing is on the line is looked for behind it. -/
theorem numberIn_of_numberReads {p : Nat} (h : ∀ i ∈ numberReads (line ++ [10]) p, i ≤ line.length) :
    ∃ r, numberIn line p = some r := by
  by_contra hnone
  have hp : p ≤ line.length := h p (mem_span.mpr ⟨Nat.le_refl _, by omega⟩)
  have hall : (line.drop p).all isSpace = true := by
    by_contra hall
    exact hnone ⟨_, if_neg hall⟩
  have hend : scanEnd ((line ++ [10]).drop p) = line.length - p + 1 := by
    rw [drop_line hp, scanEnd_blanks, length_append, length_drop, length_singleton]
    rw [all_append, hall]
    decide
  have := h (line.length + 1) (mem_span.mpr ⟨by omega, by omega⟩)
  omega

/-- The line is not left if all that is looked for is on it. -/
theorem lineReads_line (h : ValueStays line) (rest : Bytes) :
    ∀ i ∈ lineReads (line ++ 10 :: rest), i ≤ line.length := by
  obtain ⟨h6, h⟩ := h.found
  simp only [lineReads, keyEnd_line h6]
  have hnil : ∀ i ∈ ([] : List Nat), i ≤ line.length := fun _ hi => absurd hi not_mem_nil
  have hkeys : ∀ i ∈ span 6 (keyEnd line), i ≤ line.length := fun i hi =>
    (mem_span.mp hi).2.trans (keyEnd_le h6)
  refine forall_mem_append.mpr ⟨hkeys, ?_⟩
  by_cases hkey : keyEnd line = defaultCommandSize ∨ keyEnd line + 1 = defaultCommandSize
  · rwa [if_pos hkey]
  rw [if_neg hkey]
  obtain ⟨p, erange, hflags, h⟩ := h hkey
  obtain ⟨hp, herange⟩ := numberIn_end hflags
  refine forall_mem_append.mpr ⟨numberReads_line hflags rest, ?_⟩
  simp only [strtoull_drop_line hflags, hp, herange]
  by_cases hf : erange = true ∨ p = defaultCommandSize ∨ p + 1 = defaultCommandSize
  · rwa [if_pos hf]
  rw [if_neg hf]
  obtain ⟨q, erange', hlength, h⟩ := h hf
  obtain ⟨hq, herange'⟩ := numberIn_end hlength
  refine forall_mem_append.mpr ⟨numberReads_line hlength rest, ?_⟩
  simp only [strtoull_drop_line hlength, hq, herange', getD_line (numberIn_le hlength)]
  by_cases hl : erange' = true ∨ q = defaultCommandSize
  · rwa [if_pos hl]
  rw [if_neg hl]
  refine forall_mem_cons.mpr ⟨numberIn_le hlength, ?_⟩
  by_cases h13 : line.getD q 10 = 13
  · rwa [if_pos h13]
  · obtain ⟨r, hcas⟩ := h hl h13
    rw [if_neg h13]
    exact numberReads_line hcas rest

/-- If the line is not left, all that is looked for is on it. -/
theorem valueStays_of_lineReads (h : ∀ i ∈ lineReads (line ++ [10]), i ≤ line.length) : ValueStays line := by
  simp only [lineReads] at h
  obtain ⟨hkeys, h⟩ := forall_mem_append.mp h
  have h6 : 6 ≤ line.length := hkeys 6 (mem_span.mpr ⟨Nat.le_refl _, Nat.le_add_right _ _⟩)
  rw [keyEnd_line h6] at h
  refine ⟨h6, ?_⟩
  by_cases hkey : keyEnd line = defaultCommandSize ∨ keyEnd line + 1 = defaultCommandSize
  · exact hkey.imp id .inl
  rw [if_neg hkey] at h
  obtain ⟨hreads, h⟩ := forall_mem_append.mp h
  obtain ⟨⟨p, erange⟩, hflags⟩ := numberIn_of_numberReads hreads
  obtain ⟨hp, herange⟩ := numberIn_end hflags
  simp only [strtoull_drop_line hflags, hp, herange] at h
  refine .inr (.inr ?_)
  rw [hflags]
  by_cases hf : erange = true ∨ p = defaultCommandSize ∨ p + 1 = defaultCommandSize
  · exact hf.imp id (.imp id .inl)
  rw [if_neg hf] at h
  obtain ⟨hreads, h⟩ := forall_mem_append.mp h
  obtain ⟨⟨q, erange'⟩, hlength⟩ := numberIn_of_numberReads hreads
  obtain ⟨hq, herange'⟩ := numberIn_end hlength
  simp only [strtoull_drop_line hlength, hq, herange', getD_line (numberIn_le hlength)] at h
  refine .inr (.inr (.inr ?_))
  rw [hlength]
  by_cases hl : erange' = true ∨ q = defaultCommandSize
  · exact hl.imp id .inl
  rw [if_neg hl] at h
  by_cases h13 : line.getD q 10 = 13
  · exact .inr (.inr (.inl h13))
  rw [if_neg h13] at h
  obtain ⟨r, hcas⟩ := numberIn_of_numberReads (forall_mem_cons.mp h).2
  exact .inr (.inr (.inr (hcas ▸ rfl)))

/-! ## Steps that stay in bounds -/

variable {size : Nat} {p : St κ × Footprint}

theorem ensures_lift_keeps {R : St κ → St κ → Prop} (hm : Keeps R P m) :
    Ensures (lift m) p fun a q => P a ∧ q.2 = p.2 :=
  ensures_lift ((hm p.1).mono fun _ _ h => ⟨h.1, rfl⟩)

theorem ensures_memcachedIoRead : Ensures (lift (memcachedIoRead K length)) p fun r q =>
      (r.1 = .success ∧ r.2.length = length ∨ r.1.isFailed = true) ∧ r.2.length ≤ length ∧ q.2 = p.2 := by
  refine ensures_lift (((memcachedIoRead_reads length p.1).and_always
    (memcachedIoRead_length_le length p.1)).mono fun r t ht => ⟨?_, ht.2, rfl⟩)
  exact ht.1.1.imp (fun h => ⟨h.1, h.2.length⟩) fun h =>
    ReturnT.isFailed_of_isFatal (ReturnT.isFatal_of_isIoFailure h)

theorem ensures_memcachedSafeRead : Ensures (lift (memcachedSafeRead K length)) p fun r q =>
      (r.1 = .success → r.2.length = length) ∧ r.2.length ≤ length ∧ q.2 = p.2 := by
  refine ensures_lift (((memcachedSafeRead_reads length p.1).and_always
    (memcachedSafeRead_length_le length p.1)).mono fun r t ht => ⟨fun hr => ?_, ht.2, rfl⟩)
  rcases ht.1.1 with h | h
  · exact h.2.length
  · rw [hr] at h
    cases h

theorem wrote_inBounds (h : p.2.InBounds size) (hroom : count = 0 ∨ offset + count ≤ room) :
    Ensures (wrote place room offset count) p fun _ q =>
      q.1 = p.1 ∧ q.2.capacity = p.2.capacity ∧ q.2.InBounds size := by
  refine ensures_modify.mpr ⟨rfl, rfl, h.reads, ?_, h.lengths⟩
  refine forall_mem_append.mpr ⟨h.writes, fun w hw => ?_⟩
  obtain ⟨i, hi, rfl⟩ := mem_map.mp hw
  rw [mem_range'_1] at hi
  show i < room
  omega

theorem stringCheck_le {capacity : Nat} (h : stringCheck grows capacity need = some room) : need ≤ room := by
  simp only [stringCheck] at h
  split at h
  · split at h
    · cases h
    · split at h
      · cases h
        omega
      · cases h
  · cases h
    omega

theorem memcachedStringCheck_inBounds (h : p.2.InBounds size) :
    Ensures (memcachedStringCheck grows need) p fun ok q =>
      (ok = true → need ≤ q.2.capacity) ∧ q.1 = p.1 ∧ q.2.InBounds size := by
  refine ensures_bind.mpr (ensures_get.mpr ?_)
  cases hcheck : stringCheck grows p.2.capacity need with
  | none => exact ensures_pure.mpr ⟨fun h => (Bool.false_ne_true h).elim, rfl, h⟩
  | some room =>
    refine ensures_bind.mpr (ensures_modify.mpr (ensures_pure.mpr ?_))
    exact ⟨fun _ => stringCheck_le hcheck, rfl, h.reads, h.writes, h.lengths⟩

theorem decrypt_inBounds (h : p.2.InBounds size) :
    Ensures (decrypt grows memc value buffer result) p fun reply q => q.2.InBounds size ∧
      (reply.rc = .success → memc.decrypted value = some reply.result.value) := by
  have refused {q : St κ × Footprint} (hq : q.2.InBounds size) : Ensures (do
          let rc ← lift (setErrorText .failure "hashkit_decrypt() failed")
          return (⟨rc, buffer, {}⟩ : Reply)) q fun reply q => q.2.InBounds size ∧
          (reply.rc = .success → memc.decrypted value = some reply.result.value) := by
    refine ensures_bind.mpr (ensures_lift (ensures_bind.mpr (ensures_modify.mpr ?_)))
    exact ensures_pure.mpr (ensures_pure.mpr ⟨hq, fun h => nomatch h⟩)
  unfold decrypt
  split
  · exact refused h
  · rename_i plain hplain
    refine ensures_ite (fun _ => ?_) fun _ => ensures_pure.mpr ⟨h, fun _ => hplain⟩
    refine (memcachedStringCheck_inBounds h).bind fun ok q hq => ensures_ite (fun hok => ?_) fun _ => ?_
    · refine ensures_bind.mpr (ensures_bind.mpr (ensures_get.mpr (ensures_pure.mpr ?_)))
      refine (wrote_inBounds hq.2.2 (.inr ?_)).bind fun _ r hr => ensures_pure.mpr ⟨hr.2.2, fun _ => hplain⟩
      rw [Nat.zero_add]
      exact hq.1 hok
    · exact refused hq.2.2

end Touch

/-! ## `VALUE` lines -/

/-- What `textual_value_fetch` touches, given a line (without its line feed) in the buffer, is in bounds,
whatever the buffer holds behind it and whatever the server sends: of the buffer it reads the line only,
and it writes inside `item_key` and the value string. A value it accepts has the declared length, until it
is decrypted. -/
def ValueInBounds (ns : Nat) (line : Bytes) : Prop :=
  ∀ (κ : Type) (K : Kernel κ) (grows : Nat → Bool) (capacity : Nat) (s : St κ) (rest : Bytes),
    (s.memc.namespace_.getD []).length = ns →
    Ensures (Touch.textualValueFetch K grows (line ++ 10 :: rest)) (s, { capacity := capacity }) fun reply q =>
      q.2.InBounds (line.length + 1) ∧
        (reply.rc = .success → ∃ received : Bytes,
          (parseValue ns (line ++ 10 :: rest)).2 = some received.length ∧
            s.memc.decrypted received = some reply.result.value)

/-- The key has room in `item_key`, what is looked for is on the line, and the two bytes behind the value
can be added to the declared length. -/
structure ValueFits (ns : Nat) (line : Bytes) : Prop where
  stays : ValueStays line
  key : keyEnd line - 6 - ns < maxKey
  declared (n : Nat) (h : (parseValue ns (line ++ [10])).2 = some n) : n + 2 < 2 ^ 64

open Touch in
theorem ValueFits.valueInBounds (h : ValueFits ns line) : ValueInBounds ns line := by
  intro κ K grows capacity s rest hns
  have hread : Ensures (copyKey ns (line ++ 10 :: rest)) (s, { capacity := capacity }) fun _ q =>
      q.1 = s ∧ q.2.InBounds (line.length + 1) := by
    have hline : Footprint.InBounds (line.length + 1)
        { capacity := capacity, reads := [] ++ lineReads (line ++ 10 :: rest) } :=
      ⟨fun i hi => Nat.lt_succ_of_le (lineReads_line h.stays rest i hi), fun _ hw => (nomatch hw),
        fun _ hn => (nomatch hn)⟩
    refine ensures_bind.mpr (ensures_modify.mpr ((wrote_inBounds hline (.inr ?_)).mono fun _ _ hq =>
      ⟨hq.1, hq.2.2⟩))
    rw [keyEnd_line h.stays.1, Nat.zero_add]
    exact h.key
  refine ensures_bind.mpr (ensures_get.mpr ?_)
  simp only [hns]
  refine hread.bind fun _ q hq => ?_
  have hdeclared := h.declared
  rw [parseValue_line h.stays ns [] rest] at hdeclared
  cases hparse : parseValue ns (line ++ 10 :: rest) with
  | mk result declared =>
    rw [hparse] at hdeclared
    cases declared with
    | none =>
      refine (ensures_lift_keeps closeSocket_keeps).bind fun _ r hr => ensures_pure.mpr ?_
      exact ⟨hr.2 ▸ hq.2, fun h => nomatch h⟩
    | some n =>
      have hn := hdeclared n rfl
      simp only [Nat.mod_eq_of_lt hn, Nat.mod_eq_of_lt (show n + 1 < 2 ^ 64 by omega)]
      refine (memcachedStringCheck_inBounds hq.2).bind fun ok r hr => ensures_ite (fun hok => ?_) fun _ => ?_
      · have hroom : n + 2 ≤ r.2.capacity := hr.1 hok
        refine (ensures_memcachedIoRead _).bind fun a t ht => ?_
        obtain ⟨hrc, hle, ht⟩ := ht
        refine ensures_bind.mpr (ensures_bind.mpr (ensures_get.mpr (ensures_pure.mpr ?_)))
        rw [ht]
        refine (wrote_inBounds (ht ▸ hr.2.2) (.inr (by omega))).bind fun _ u hu => ?_
        refine ensures_ite (fun hfail => ?_) fun hfail => ?_
        · refine ensures_ite (fun _ => ?_) fun _ => ensures_pure.mpr ⟨hu.2.2, fun h => ?_⟩
          · refine (ensures_lift_keeps closeSocket_keeps).bind fun _ v hv => ?_
            refine (ensures_lift_keeps (setError_keeps (K := K) _)).bind fun rc w hw => ensures_pure.mpr ?_
            obtain ⟨rfl, hw⟩ := hw
            exact ⟨hw ▸ hv.2 ▸ hu.2.2, fun h => nomatch h⟩
          · rw [show a.1 = .success from h] at hfail
            cases hfail
        · have hlength : a.2.length = n + 2 := (hrc.resolve_right hfail).2
          refine (wrote_inBounds hu.2.2 (.inr (by omega))).bind fun _ v hv => ?_
          refine (wrote_inBounds hv.2.2 (.inr (by omega))).bind fun _ w hw => ?_
          refine (decrypt_inBounds hw.2.2).mono fun reply x hx => ⟨hx.1, fun hok => ⟨_, ?_, hx.2 hok⟩⟩
          rw [length_take, length_map, hlength]
          exact congrArg some (by omega)
      · refine (ensures_lift_keeps (setError_keeps (K := K) _)).bind fun rc t ht => ensures_pure.mpr ?_
        obtain ⟨rfl, ht⟩ := ht
        exact ⟨ht ▸ hr.2.2, fun h => nomatch h⟩

/-! ## What was touched stays in the record -/

structure Footprint.PartOf (f g : Footprint) : Prop where
  reads : f.reads ⊆ g.reads
  writes : f.writes ⊆ g.writes
  lengths : f.lengths ⊆ g.lengths

theorem Footprint.PartOf.refl (f : Footprint) : f.PartOf f := ⟨fun _ h => h, fun _ h => h, fun _ h => h⟩

theorem Footprint.PartOf.trans {f g h : Footprint} (hfg : f.PartOf g) (hgh : g.PartOf h) : f.PartOf h :=
  ⟨List.Subset.trans hfg.reads hgh.reads, List.Subset.trans hfg.writes hgh.writes,
    List.Subset.trans hfg.lengths hgh.lengths⟩

theorem Footprint.InBounds.of_partOf {f g : Footprint} (h : g.InBounds size) (hpart : f.PartOf g) :
    f.InBounds size where
  reads i hi := h.reads i (hpart.reads hi)
  writes w hw := h.writes w (hpart.writes hw)
  lengths n hn := h.lengths n (hpart.lengths hn)

namespace Touch

/-- `m` only adds to the record. -/
def Adds (m : Touch κ α) : Prop := ∀ p, Always m p fun _ q => p.2.PartOf q.2

namespace Adds

theorem pure {a : α} : Adds (pure a : Touch κ α) := fun _ => .pure (.refl _)

theorem failure : Adds (failure : Touch κ α) := fun _ => .failure

theorem bind {m : Touch κ α} {f : α → Touch κ β} (hm : Adds m) (hf : ∀ a, Adds (f a)) : Adds (m >>= f) :=
  fun p => (hm p).bind fun a q hq => (hf a q).mono fun _ _ hr => hq.trans hr

theorem get_bind {f : St κ × Footprint → Touch κ α} (hf : ∀ p, Adds (f p)) : Adds (get >>= f) :=
  fun p => .get_bind (hf p p)

theorem ite {c : Prop} [Decidable c] {m m' : Touch κ α} (hm : Adds m) (hm' : Adds m') :
    Adds (if c then m else m') :=
  fun p => .ite (fun _ => hm p) fun _ => hm' p

theorem lift : Adds (lift m) := by
  intro p a q hrun
  obtain ⟨r, -, hr⟩ := Option.map_eq_some_iff.mp hrun
  obtain rfl := (Prod.mk.inj hr).2
  exact .refl _

theorem note {f : Footprint → Footprint} (hf : ∀ g : Footprint, g.PartOf (f g)) : Adds (note f : Touch κ Unit) :=
  fun p => .modify (hf p.2)

theorem wrote : Adds (wrote place room offset count : Touch κ Unit) :=
  note fun _ => ⟨fun _ h => h, fun _ h => mem_append_left _ h, fun _ h => h⟩

theorem capacity : Adds (capacity : Touch κ Nat) := get_bind fun _ => pure

theorem memcachedStringCheck : Adds (memcachedStringCheck grows need : Touch κ Bool) := by
  refine get_bind fun p => ?_
  split
  · exact pure
  · refine bind (note fun _ => ?_) fun _ => pure
    exact ⟨fun _ h => h, fun _ h => h, fun _ h => h⟩

theorem decrypt : Adds (decrypt grows memc value buffer result : Touch κ Reply) := by
  unfold Touch.decrypt
  split
  · exact lift.bind fun _ => pure
  · refine .ite (memcachedStringCheck.bind fun ok => .ite ?_ ?_) pure
    · exact capacity.bind fun _ => wrote.bind fun _ => pure
    · exact lift.bind fun _ => pure

end Adds

/-- If a run stays in bounds, so does its first part. -/
theorem inBounds_first {m : Touch κ α} {f : α → Touch κ β} {P : β → St κ × Footprint → Prop}
    (h : Ensures (m >>= f) p fun b q => q.2.InBounds size ∧ P b q) (hf : ∀ a, Adds (f a)) :
    Ensures m p fun _ q => q.2.InBounds size := by
  refine (ensures_bind.mp h).mono fun a q hq => ?_
  obtain ⟨b, r, hrun, hin, -⟩ := hq
  exact hin.of_partOf (hf a q b r hrun)

end Touch

theorem parseValue_lt {n : Nat} (h : (parseValue ns buffer).2 = some n) : n < 2 ^ 64 := by
  simp only [parseValue] at h
  repeat' split at h
  all_goals first
    | cases h; exact strtoull_lt
    | cases h

/-- A connection of a client with a namespace of a given length, on which `bytes` arrive. -/
def arrivingIn (ns : Nat) (bytes : Bytes) : St (List InByte) :=
  { arriving bytes with memc := { Memcached.create with namespace_ := some (List.replicate ns 97) } }

theorem Touch.copyKey_spec (ns : Nat) (buffer : Bytes) {p : St κ × Footprint} :
    Ensures (copyKey ns buffer) p fun _ q => q.1 = p.1 ∧ q.2.capacity = p.2.capacity :=
  ensures_bind.mpr (ensures_modify.mpr (ensures_modify.mpr ⟨rfl, rfl⟩))

theorem Touch.memcachedStringCheck_one (hneed : need ≤ 1) (hp : p.2.capacity = 0) :
    Ensures (memcachedStringCheck (fun _ => true) need) p fun ok q =>
      ok = true ∧ q.1 = p.1 ∧ q.2.capacity ≤ blockSize := by
  obtain ⟨room, hcheck, hroom⟩ : ∃ room, stringCheck (fun _ => true) 0 need = some room ∧ room ≤ blockSize := by
    obtain rfl | rfl := Nat.le_one_iff_eq_zero_or_eq_one.mp hneed
    · exact ⟨0, by decide, by decide⟩
    · exact ⟨blockSize, by decide, by decide⟩
  refine ensures_bind.mpr (ensures_get.mpr ?_)
  rw [hp, hcheck]
  exact ensures_bind.mpr (ensures_modify.mpr (ensures_pure.mpr ⟨rfl, rfl, hroom⟩))

open Touch in
theorem ValueInBounds.valueFits (h : ValueInBounds ns line) : ValueFits ns line := by
  have hrun := h _ (drip 0) (fun _ => true) 0 (arrivingIn ns [0]) [] length_replicate
  have hns : (((arrivingIn ns [0]).memc.namespace_.getD []).length) = ns := length_replicate
  rw [Touch.textualValueFetch, ensures_bind, ensures_get] at hrun
  simp only [hns] at hrun
  have hread : Ensures (copyKey ns (line ++ [10])) (arrivingIn ns [0], { capacity := 0 }) fun _ q =>
      q.2.InBounds (line.length + 1) := by
    refine inBounds_first hrun fun _ => ?_
    split
    · exact Adds.lift.bind fun _ => .pure
    · refine Adds.memcachedStringCheck.bind fun _ => .ite ?_ (Adds.lift.bind fun _ => .pure)
      refine Adds.lift.bind fun r => Adds.capacity.bind fun _ => Adds.wrote.bind fun _ => .ite ?_ ?_
      · exact .ite (Adds.lift.bind fun _ => Adds.lift.bind fun _ => .pure) .pure
      · exact Adds.wrote.bind fun _ => Adds.wrote.bind fun _ => .decrypt
  rw [copyKey, ensures_bind, note, ensures_modify, wrote, note, ensures_modify] at hread
  have hstays : ValueStays line := valueStays_of_lineReads fun i hi => Nat.le_of_lt_succ (hread.reads i hi)
  have hkey := hread.writes ⟨.itemKey, keyEnd (line ++ [10]) - 6 - ns, maxKey⟩ (by
    refine mem_map.mpr ⟨_, mem_range'_1.mpr ⟨Nat.zero_le _, ?_⟩, rfl⟩
    omega)
  rw [keyEnd_line hstays.1] at hkey
  refine ⟨hstays, hkey, fun n hn => ?_⟩
  by_contra hlarge
  -- the sum wraps: none or one byte is read, and the zero bytes go far behind the block
  have hlt := parseValue_lt hn
  have hsmall : (n + 2) % 2 ^ 64 ≤ 1 := by omega
  obtain ⟨_, q, hq, htail⟩ := ensures_bind.mp hrun
  obtain ⟨hq, hcap⟩ := (copyKey_spec ns (line ++ [10])).elim hq
  cases hparse : parseValue ns (line ++ [10]) with
  | mk result declared =>
    rw [hparse] at hn
    obtain rfl : declared = some n := hn
    simp only [hparse] at htail
    obtain ⟨ok, r, hr, hfetch⟩ := ensures_bind.mp htail
    obtain ⟨rfl, hr, hroom⟩ := (memcachedStringCheck_one hsmall hcap).elim hr
    simp only [if_true] at hfetch
    obtain ⟨a, t, ht, hreceived⟩ := ensures_bind.mp hfetch
    have hone : (n + 2) % 2 ^ 64 ≤ (r.1.unread id).length := by
      rw [hr, hq]
      exact hsmall
    obtain ⟨⟨ha, -⟩, hrec⟩ := (lift_spec (memcachedIoRead_fills (drip_delivers 0).toFeeds.fills
      (by rw [hr, hq]; rfl) trivial hone)).elim ht
    obtain ⟨room, u, hu, hstored⟩ := ensures_bind.mp hreceived
    have hu : some (t.2.capacity, t) = some (room, u) := hu
    have hle : room ≤ blockSize := by
      cases hu
      rwa [hrec]
    obtain ⟨_, v, -, hended⟩ := ensures_bind.mp hstored
    simp only [ha, show ReturnT.success.isFailed = false from rfl, Bool.false_eq_true, if_false] at hended
    have hzero := inBounds_first hended fun _ => Adds.wrote.bind fun _ => .decrypt
    rw [wrote, note, ensures_modify] at hzero
    have := hzero.writes ⟨.value, n, room⟩ (mem_append_right _
      (mem_map.mpr ⟨n, mem_range'_1.mpr (by omega), rfl⟩))
    simp only [blockSize] at this hle
    omega

/-- `VALUE` lines stay in bounds just if they fit. -/
theorem value_line_in_bounds (ns : Nat) (line : Bytes) : ValueInBounds ns line ↔ ValueFits ns line :=
  ⟨fun h => h.valueFits, fun h => h.valueInBounds⟩

/-- The largest declared lengths: the sum with the two bytes behind the value is zero, nothing is allocated
and the zero bytes are written far outside. -/
theorem value_line_out_of_bounds : ¬ValueInBounds 0 (ascii "VALUE a 0 18446744073709551614\r") := by
  intro h
  have hlt := h.valueFits.declared 18446744073709551614 (by decide +kernel)
  omega

end LM
