import LibMemcached.Proof.Outgoing
import LibMemcached.Proof.Stream
import Mathlib.Data.List.Forall2

/-!
# Writing while at most one answer is outstanding

A purge reads all answers but the last one, so with at most one outstanding it is a flush and
nothing else. Where the loop of `io_flush` sends what is in the write buffer, everything that writes then
only moves bytes through the write buffer to the server, which a relation describes (`Writer`):
`memcached_purge`, `io_flush`, `_io_write` (`Writer.memcachedIoWrite`) and `memcached_io_writev`
(`Writer.memcachedIoWritev`).

A server that accepts all bytes and answers them (`Accepts`) is one case: `Wrote` says what was sent and
answered.
-/

namespace LM

open List

variable {κ : Type} {K : Kernel κ} {pending : κ → List InByte} {A : Request → List InByte → Prop} {s : St κ}
  {cells : List OutByte} {m : Act κ Bool}

/-- `send` accepts all bytes, and the server answers the commands they complete in order, each as `A`
says. Every connection is established, and then nothing is pending. -/
structure Accepts (K : Kernel κ) (pending : κ → List InByte) (A : Request → List InByte → Prop) :
    Prop where
  send (k : κ) (cells : List OutByte) : cells ≠ [] →
    ∃ answers k', K.send k cells = (.sent cells.length, k') ∧
      pending k' = pending k ++ answers.flatten ∧ List.Forall₂ A (requestsOf cells) answers
  connect (memc : Memcached) (b : Backoff) (k : κ) :
    ∃ b' k', K.connect memc b k = (none, b', k') ∧ pending k' = []

/-- `cells` were written behind what was in the write buffer, from whose front some was sent and
answered. Nothing else happened. -/
structure Wrote (pending : κ → List InByte) (A : Request → List InByte → Prop) (s : St κ)
    (cells : List OutByte) (s' : St κ) : Prop where
  shared : s'.toShared = s.toShared
  valid : s'.valid = true
  cursorActive : s'.cursorActive = s.cursorActive
  readBuffer : s'.readBuffer = s.readBuffer
  copied : s'.copied = s.copied ++ cells
  sent : ∃ sent answers, s.writeBuffer ++ cells = sent ++ s'.writeBuffer ∧
    List.Forall₂ A (requestsOf sent) answers ∧
    pending s'.net = pending s.net ++ answers.flatten

namespace Wrote

variable {s t u : St κ} {cells cells' : List OutByte}

theorem rfl (hv : s.valid = true) : Wrote pending A s [] s :=
  ⟨Eq.refl _, hv, Eq.refl _, Eq.refl _, by simp, [], [], by simp, .nil, by simp⟩

theorem requestsOf_append (cells cells' : List OutByte) :
    requestsOf (cells ++ cells') = requestsOf cells ++ requestsOf cells' := by
  simp [requestsOf]

theorem trans (h : Wrote pending A s cells t) (h' : Wrote pending A t cells' u) :
    Wrote pending A s (cells ++ cells') u where
  shared := h'.shared.trans h.shared
  valid := h'.valid
  cursorActive := h'.cursorActive.trans h.cursorActive
  readBuffer := h'.readBuffer.trans h.readBuffer
  copied := by rw [h'.copied, h.copied, append_assoc]
  sent := by
    obtain ⟨sent, answers, hsent, hA, hp⟩ := h.sent
    obtain ⟨sent', answers', hsent', hA', hp'⟩ := h'.sent
    refine ⟨sent ++ sent', answers ++ answers', ?_, ?_, ?_⟩
    · rw [← append_assoc, hsent, append_assoc, hsent', append_assoc]
    · rw [requestsOf_append]
      exact rel_append hA hA'
    · rw [hp', hp, flatten_append, append_assoc]

theorem copyIn (hv : s.valid = true) (cells : List OutByte) : Wrote pending A s cells (s.copyIn cells) :=
  ⟨Eq.refl _, hv, Eq.refl _, Eq.refl _, Eq.refl _, [], [], by simp [St.copyIn], .nil, by simp [St.copyIn]⟩

theorem purging (h : Wrote pending A { s with isPurging := true } cells t)
    (hp : s.isPurging = false) : Wrote pending A s cells { t with isPurging := false } where
  shared := by
    have ht : ({ t with isPurging := false } : St κ).toShared =
        { t.toShared with isPurging := false } := Eq.refl _
    rw [ht, h.shared, ← hp]
  valid := h.valid
  cursorActive := h.cursorActive
  readBuffer := h.readBuffer
  copied := h.copied
  sent := h.sent

end Wrote

/-! ## Relations that writing keeps -/

/-- `W s cells ok t` describes how `cells` are written from `s` to `t`, with the result `ok`: it holds of
`io_flush` and of copying to the write buffer, and can be put together. -/
structure Written (K : Kernel κ) (W : St κ → List OutByte → Bool → St κ → Prop) : Prop where
  refl (s : St κ) : W s [] true s
  trans {s t u : St κ} {cells cells' : List OutByte} {ok : Bool} :
    W s cells true t → W t cells' ok u → W s (cells ++ cells') ok u
  stop {s t : St κ} {cells : List OutByte} (cells' : List OutByte) : W s cells false t → W s (cells ++ cells') false t
  copyIn {s : St κ} {cells : List OutByte} :
    (s.writeBuffer.length ≤ maxBuffer → (s.writeBuffer ++ cells).length ≤ maxBuffer) →
      W s cells true (s.copyIn cells)
  flush (s : St κ) : Always (ioFlush K (purge K)) s fun ok t => W s [] ok t

namespace Written

variable {W : St κ → List OutByte → Bool → St κ → Prop} (hW : Written K W)
include hW

theorem bind {m' : Act κ Bool} {cells' : List OutByte} (h : Always m s fun ok t => W s cells ok t)
    (h' : ∀ t, Always m' t fun ok u => W t cells' ok u) :
    Always (do if ← m then m' else return false) s fun ok u => W s (cells ++ cells') ok u := by
  refine h.bind fun ok t ht => ?_
  cases ok with
  | true => exact (h' t).mono fun ok' u hu => hW.trans ht hu
  | false => exact .pure (hW.stop cells' ht)

theorem nil (s : St κ) : Always (return true) s fun ok t => W s [] ok t := .pure (hW.refl s)

theorem ioWriteLoop (cells : List OutByte) (fuel : Nat) (s : St κ) :
    Always (LM.ioWriteLoop K (purge K) fuel cells) s fun ok t => W s cells ok t := by
  induction fuel generalizing cells s with
  | zero =>
    cases cells with
    | nil => exact hW.nil s
    | cons c cs => exact .failure
  | succ fuel ih =>
    cases cells with
    | nil => exact hW.nil s
    | cons c cs =>
      refine .get_bind ?_
      dsimp only
      obtain ⟨n, hn⟩ : ∃ n, n = min (maxBuffer - s.writeBuffer.length) (cs.length + 1) := ⟨_, rfl⟩
      rw [← hn]
      refine .set_bind ?_
      have hcopy : W s ((c :: cs).take n) true (s.copyIn ((c :: cs).take n)) := hW.copyIn fun hroom => by
        rw [length_append, length_take, length_cons]
        omega
      have hall : (c :: cs).take n ++ (c :: cs).drop n = c :: cs := take_append_drop n _
      refine Always.mono (Q := fun ok u => W (s.copyIn ((c :: cs).take n)) ((c :: cs).drop n) ok u) ?_
        fun ok u hu => hall ▸ hW.trans hcopy hu
      refine .ite (fun _ => ?_) fun _ => ih _ _
      have hflush : Always (ioFlush K (purge K)) (s.copyIn ((c :: cs).take n)) fun ok t =>
          W (s.copyIn ((c :: cs).take n)) [] ok t := hW.flush _
      exact hW.bind hflush fun t => ih _ t

theorem memcachedIoWrite (cells : List OutByte) (withFlush : Bool) (s : St κ) :
    Always (LM.memcachedIoWrite K cells withFlush) s fun ok t => W s cells ok t := by
  have hflush (t : St κ) : Always (if withFlush then ioFlush K (purge K) else return true) t
      fun ok u => W t [] ok u := .ite (fun _ => hW.flush t) fun _ => hW.nil t
  have hall := hW.bind (hW.ioWriteLoop cells (2 * cells.length) s) hflush
  rwa [append_nil] at hall

variable (vector : List (List OutByte))

theorem writevLoop (s : St κ) : Always (LM.writevLoop K vector) s fun ok t => W s vector.flatten ok t := by
  induction vector generalizing s with
  | nil => exact hW.nil s
  | cons v vs ih =>
    rw [LM.writevLoop, flatten_cons]
    refine .ite (fun hnil => ?_) fun _ => hW.bind (hW.memcachedIoWrite v false s) ih
    rw [hnil]
    exact ih s

theorem memcachedIoWritev (withFlush : Bool) (s : St κ) :
    Always (LM.memcachedIoWritev K vector withFlush) s fun ok t => W s vector.flatten ok t := by
  have hflush (t : St κ) : Always (if withFlush then LM.memcachedIoWrite K [] true else return true) t
      fun ok u => W t [] ok u := .ite (fun _ => hW.memcachedIoWrite [] true t) fun _ => hW.nil t
  have hall := hW.bind (hW.writevLoop vector s) hflush
  rwa [append_nil] at hall

end Written

/-! ### What a flush leaves -/

theorem flushLoop_empties (purge : Act κ Bool) (total fuel : Nat) (rest : List OutByte) (s : St κ) :
    Always (flushLoop K purge total fuel rest) s fun ok t => ok = true → t.writeBuffer = [] := by
  induction fuel generalizing rest s with
  | zero =>
    cases rest with
    | nil => exact Always.bind (Q := fun _ t => t.writeBuffer = []) (.modify rfl) fun _ t ht => .pure fun _ => ht
    | cons c cs => exact .failure
  | succ fuel ih =>
    cases rest with
    | nil => exact Always.bind (Q := fun _ t => t.writeBuffer = []) (.modify rfl) fun _ t ht => .pure fun _ => ht
    | cons c cs =>
      have failed {m : Act κ ReturnT} (t : St κ) : Always (do closeSocket K; let _ ← m; return false) t
          fun ok t => ok = true → t.writeBuffer = [] := .skip fun _ _ => .skip fun _ _ => .pure nofun
      refine .get_bind ?_
      dsimp only
      split
      · exact .set_bind (ih _ _)
      · refine .set_bind ?_
        split
        · exact ih _ _
        · refine .skip fun repacked t => .ite (fun _ => ih _ _) fun _ => .get_bind (.skip fun rc u => .skip fun _ v => ?_)
          exact .ite (fun _ => ih _ _) fun _ => .ite (fun _ => .pure nofun) fun _ => failed v
        · exact failed _
        · exact failed _
        · exact failed _
        · exact failed _

theorem ioFlush_empties {purge : Act κ Bool} (s : St κ) :
    Always (ioFlush K purge) s fun ok t => ok = true → t.writeBuffer = [] :=
  .skip fun _ t => .ite (fun _ => .get_bind (flushLoop_empties purge _ _ _ t)) fun _ => .pure nofun

theorem memcachedIoWrite_empties (cells : List OutByte) (s : St κ) :
    Always (memcachedIoWrite K cells true) s fun ok t => ok = true → t.writeBuffer = [] :=
  .skip fun _ t => .ite (fun _ => ioFlush_empties t) fun _ => .pure nofun

theorem memcachedIoWritev_empties (vector : List (List OutByte)) (s : St κ) :
    Always (memcachedIoWritev K vector true) s fun ok t => ok = true → t.writeBuffer = [] :=
  .skip fun _ t => .ite (fun _ => memcachedIoWrite_empties [] t) fun _ => .pure nofun

/-! ## Writing that succeeds -/

/-- `W s cells t` describes how `cells` are written while nothing but writing happens: from states with `P`
the loop of `io_flush` empties the write buffer. -/
structure Writer (K : Kernel κ) (P : St κ → Prop) (W : St κ → List OutByte → St κ → Prop) : Prop where
  refl {s : St κ} : P s → W s [] s
  trans {s t u : St κ} {cells cells' : List OutByte} : W s cells t → W t cells' u → W s (cells ++ cells') u
  keeps {s t : St κ} {cells : List OutByte} : W s cells t → P t
  shared {s t : St κ} {cells : List OutByte} : W s cells t → t.toShared = s.toShared
  cursorActive {s t : St κ} {cells : List OutByte} : W s cells t → t.cursorActive = s.cursorActive
  copyIn {s : St κ} (cells : List OutByte) : P s → W s cells (s.copyIn cells)
  begins {s : St κ} : P s → P { s with isPurging := true }
  purging {s t : St κ} {cells : List OutByte} : W { s with isPurging := true } cells t →
    s.isPurging = false → W s cells { t with isPurging := false }
  flush {s : St κ} (purge : Act κ Bool) (total : Nat) {fuel : Nat} : P s → s.writeBuffer.length ≤ fuel →
    Ensures (flushLoop K purge total fuel s.writeBuffer) s fun ok t =>
      ok = true ∧ W s [] t ∧ t.writeBuffer = []

/-- A connection on which writing reads nothing. -/
structure Alone (P : St κ → Prop) (s : St κ) : Prop where
  holds : P s
  isPurging : s.isPurging = false
  cursorActive : s.cursorActive ≤ 1
  room : s.writeBuffer.length ≤ maxBuffer

/-- What a program that writes does: it succeeds, and `cells` were written. -/
abbrev WritesOut (P : St κ → Prop) (W : St κ → List OutByte → St κ → Prop) (m : Act κ Bool) (s : St κ)
    (cells : List OutByte) (withFlush : Bool) : Prop :=
  Ensures m s fun ok t => ok = true ∧ W s cells t ∧ Alone P t ∧ (withFlush = true → t.writeBuffer = [])

namespace Writer

variable {P : St κ → Prop} {W : St κ → List OutByte → St κ → Prop} (hW : Writer K P W)
include hW

theorem alone {t : St κ} (h : W s cells t) (hs : Alone P s) (hroom : t.writeBuffer.length ≤ maxBuffer) :
    Alone P t where
  holds := hW.keeps h
  isPurging := (congrArg Shared.isPurging (hW.shared h)).trans hs.isPurging
  cursorActive := hW.cursorActive h ▸ hs.cursorActive
  room := hroom

/-! ### The flush and the purge -/

theorem ioFlush_of_purge {purge : Act κ Bool} (hpurge : Ensures purge s fun ok t => ok = true ∧ W s [] t) :
    Ensures (ioFlush K purge) s fun ok t => ok = true ∧ W s [] t ∧ t.writeBuffer = [] := by
  refine hpurge.bind fun ok t ht => ?_
  obtain ⟨rfl, ht⟩ := ht
  simp only [if_true, ensures_bind, ensures_get]
  refine (hW.flush purge _ (hW.keeps ht) (Nat.le_add_right _ _)).mono fun ok u hu => ?_
  exact ⟨hu.1, hW.trans ht hu.2.1, hu.2.2⟩

theorem purge (hs : Alone P s) : Ensures (LM.purge K) s fun ok t => ok = true ∧ W s [] t := by
  simp only [LM.purge, memcachedPurge, ensures_bind, ensures_get]
  refine ensures_ite (fun _ => ensures_pure.mpr ⟨rfl, hW.refl hs.holds⟩) fun _ => ?_
  simp only [purgeBody, ioWrite, ioWriteLoop, ensures_bind, ensures_modify, ensures_pure, if_true]
  have hnested : Ensures (memcachedPurge K 0) { s with isPurging := true } fun ok t =>
      ok = true ∧ W { s with isPurging := true } [] t := by
    simp only [memcachedPurge, ensures_bind, ensures_get, skipsPurge_of_isPurging, if_true]
    exact ensures_pure.mpr ⟨rfl, hW.refl (hW.begins hs.holds)⟩
  refine (hW.ioFlush_of_purge hnested).mono fun ok t ht => ?_
  obtain ⟨rfl, ht, -⟩ := ht
  have hct : ¬1 < t.cursorActive := by
    rw [hW.cursorActive ht]
    exact Nat.not_lt.mpr hs.cursorActive
  simp only [if_true, purgeAnswers, ensures_bind, ensures_get, if_neg hct, ensures_pure]
  exact ⟨trivial, hW.purging ht hs.isPurging⟩

theorem written : Written K fun s cells ok t => Alone P s → ok = true ∧ W s cells t ∧ Alone P t where
  refl s hs := ⟨rfl, hW.refl hs.holds, hs⟩
  trans h h' hs := by
    obtain ⟨-, hwrote, ht⟩ := h hs
    obtain ⟨hok, hwrote', hu⟩ := h' ht
    exact ⟨hok, hW.trans hwrote hwrote', hu⟩
  stop _ h hs := nomatch (h hs).1
  copyIn hroom hs :=
    have hcopy := hW.copyIn _ hs.holds
    ⟨rfl, hcopy, hW.alone hcopy hs (hroom hs.room)⟩
  flush s ok t hrun hs := by
    obtain ⟨hok, hwrote, hempty⟩ := (hW.ioFlush_of_purge (hW.purge hs)).elim hrun
    refine ⟨hok, hwrote, hW.alone hwrote hs ?_⟩
    rw [hempty]
    exact Nat.zero_le _

theorem memcachedIoWrite (cells : List OutByte) (withFlush : Bool) (hs : Alone P s) :
    WritesOut P W (LM.memcachedIoWrite K cells withFlush) s cells withFlush := by
  obtain ⟨ok, t, hrun, -⟩ := memcachedIoWrite_writes (K := K) cells withFlush hs.isPurging False.elim hs.room
  obtain ⟨rfl, hwrote, ht⟩ := hW.written.memcachedIoWrite cells withFlush s ok t hrun hs
  refine ⟨true, t, hrun, rfl, hwrote, ht, ?_⟩
  rintro rfl
  exact memcachedIoWrite_empties cells s true t hrun rfl

theorem memcachedIoWritev (vector : List (List OutByte)) (withFlush : Bool) (hs : Alone P s) :
    WritesOut P W (LM.memcachedIoWritev K vector withFlush) s vector.flatten withFlush := by
  obtain ⟨ok, t, hrun, -⟩ := memcachedIoWritev_writes (K := K) vector withFlush hs.isPurging False.elim hs.room
  obtain ⟨rfl, hwrote, ht⟩ := hW.written.memcachedIoWritev vector withFlush s ok t hrun hs
  refine ⟨true, t, hrun, rfl, hwrote, ht, ?_⟩
  rintro rfl
  exact memcachedIoWritev_empties vector s true t hrun rfl

end Writer

/-! ## A server that accepts all bytes -/

/-- A connection on which writing reads nothing. -/
structure Lone (s : St κ) : Prop where
  valid : s.valid = true
  isPurging : s.isPurging = false
  cursorActive : s.cursorActive ≤ 1
  room : s.writeBuffer.length ≤ maxBuffer

/-- What a program that writes does: it succeeds, and `cells` were written. -/
abbrev Writing (pending : κ → List InByte) (A : Request → List InByte → Prop) (m : Act κ Bool)
    (s : St κ) (cells : List OutByte) (withFlush : Bool) : Prop :=
  Ensures m s fun ok s' => ok = true ∧ Wrote pending A s cells s' ∧ Lone s' ∧
    (withFlush = true → s'.writeBuffer = [])

section Server

variable (hS : Accepts K pending A)
include hS

/-- The loop of `io_flush` on an open connection: one `send`. -/
theorem flushLoop_wrote (purge : Act κ Bool) (hv : s.valid = true) (total : Nat) {fuel : Nat}
    (hf : s.writeBuffer.length ≤ fuel) :
    Ensures (flushLoop K purge total fuel s.writeBuffer) s fun ok s' =>
      ok = true ∧ Wrote pending A s [] s' ∧ s'.writeBuffer = [] := by
  cases hw : s.writeBuffer with
  | nil =>
    simp only [flushLoop, ensures_bind, ensures_modify]
    refine ensures_pure.mpr ⟨rfl, ⟨rfl, hv, rfl, rfl, by simp, [], [], by simp [hw], .nil, by simp⟩, rfl⟩
  | cons c cs =>
    obtain ⟨fuel, rfl⟩ : ∃ n, fuel = n + 1 := ⟨fuel - 1, by rw [hw, length_cons] at hf; omega⟩
    obtain ⟨answers, net, hsend, hpending, hanswers⟩ := hS.send s.net (c :: cs) (cons_ne_nil _ _)
    simp only [flushLoop, ensures_bind, ensures_get, hv, if_true, hsend, ensures_set,
      drop_length, ensures_modify]
    exact ensures_pure.mpr ⟨rfl, ⟨rfl, rfl, rfl, rfl, by simp, c :: cs, answers, by simp [hw], hanswers,
      hpending⟩, rfl⟩

theorem Accepts.writer : Writer K (fun s => s.valid = true) (Wrote pending A) where
  refl h := .rfl h
  trans h h' := h.trans h'
  keeps h := h.valid
  shared h := h.shared
  cursorActive h := h.cursorActive
  copyIn cells h := .copyIn h cells
  begins h := h
  purging h hp := h.purging hp
  flush purge total _ hv hf := flushLoop_wrote hS purge hv total hf

omit hS in
theorem WritesOut.writing {withFlush : Bool}
    (h : WritesOut (fun s => s.valid = true) (Wrote pending A) m s cells withFlush) :
    Writing pending A m s cells withFlush :=
  h.mono fun _ _ ht => ⟨ht.1, ht.2.1, ⟨ht.2.2.1.holds, ht.2.2.1.isPurging, ht.2.2.1.cursorActive,
    ht.2.2.1.room⟩, ht.2.2.2⟩

theorem memcachedIoWrite_writing (cells : List OutByte) (withFlush : Bool) (hs : Lone s) :
    Writing pending A (memcachedIoWrite K cells withFlush) s cells withFlush :=
  (hS.writer.memcachedIoWrite cells withFlush ⟨hs.valid, hs.isPurging, hs.cursorActive, hs.room⟩).writing

theorem memcachedIoWritev_writing (vector : List (List OutByte)) (withFlush : Bool) (hs : Lone s) :
    Writing pending A (memcachedIoWritev K vector withFlush) s vector.flatten withFlush :=
  (hS.writer.memcachedIoWritev vector withFlush ⟨hs.valid, hs.isPurging, hs.cursorActive, hs.room⟩).writing

end Server

end LM
