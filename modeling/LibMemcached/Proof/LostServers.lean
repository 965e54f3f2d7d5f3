import Mathlib.Data.List.DropRight
import LibMemcached.Framework.Trace
import LibMemcached.Impl.Peer
import LibMemcached.Impl.Get
import LibMemcached.Proof.Redistribution

/-!
# Servers that are lost while results are fetched

A caller fetches with one result until there is no more. Each call of `memcached_fetch_result` reads responses
until one of them is a value; the flags it computes its error from are local to the call. So the error of the
last call depends on the codes that were read after the last value, and on the number of values (`Told`).
-/

namespace LM

open List

variable {κ : Type} {K : Kernel κ} {poller : Poller κ} {c : Client κ} {codes : List ReturnT} {f : Fetch}
  {rc : ReturnT} {result : Result}

/-- A response that is read for the caller: its server, its code, and whether the connection was lost. -/
structure FetchRead where
  server : Nat
  rc : ReturnT
  lost : Bool

/-- There is a connection to server `k`. -/
def Client.OpenAt (c : Client κ) (k : Nat) : Prop := ∃ conn, c.conns[k]? = some conn ∧ conn.valid = true

/-- The step of the client that `heard` notes. -/
def Responds (K : Kernel κ) (heard : FetchRead) (c c' : Client κ) : Prop :=
  (∃ result result', onServer heard.server (responseInto K defaultCommandSize result) c =
    some ((heard.rc, result'), c')) ∧
  (heard.lost = true ↔ c.OpenAt heard.server ∧ ¬c'.OpenAt heard.server)

/-- What goes on between the responses: a server is chosen, or is done. -/
def BetweenResponses (poller : Poller κ) (c c' : Client κ) : Prop :=
  (∃ k, memcachedIoGetReadableServer poller c = some (k, c')) ∨ ∃ k, onServer k responseReset c = some ((), c')

/-- The codes that were read after the last value. -/
def lastCall (codes : List ReturnT) : List ReturnT := codes.rtakeWhile (· != .success)

/-- The codes of the last call show that not everything was read: what is read last is not `NOTFOUND` after
values, and there is a failed connection or a time-out among the codes or, after values, the last one has
failed. `MAXIMUM_RETURN`, which stands for no code, is none. -/
def Told (codes : List ReturnT) (values : Nat) : Prop :=
  ∃ init rc, codes = init ++ [rc] ∧ rc ≠ .maximumReturn ∧ ¬(rc = .notFound ∧ values ≠ 0) ∧
    (.connectionFailure ∈ codes ∨ .timeout ∈ codes ∨ values ≠ 0 ∧ rc.isFailed = true)

/-! ## One call -/

/-- The variables of `memcached_fetch_result` after these codes. -/
structure Fetch.Read (f : Fetch) (codes : List ReturnT) (f' : Fetch) : Prop where
  error : f'.error = codes.getLast?.getD f.error
  connectionFailures : f'.connectionFailures = true ↔ f.connectionFailures = true ∨ .connectionFailure ∈ codes
  timeouts : f'.timeouts = true ↔ f.timeouts = true ∨ .timeout ∈ codes

theorem Fetch.Read.nil (f : Fetch) : f.Read [] f := ⟨rfl, by simp, by simp⟩

theorem Fetch.Read.cons {g f' : Fetch} (hg : g.error = rc)
    (hconn : g.connectionFailures = true ↔ f.connectionFailures = true ∨ rc = .connectionFailure)
    (htime : g.timeouts = true ↔ f.timeouts = true ∨ rc = .timeout) (h : g.Read codes f') :
    f.Read (rc :: codes) f' where
  error := by
    rw [h.error, hg, List.getLast?_cons]
    rfl
  connectionFailures := by rw [h.connectionFailures, hconn, mem_cons, or_assoc, eq_comm (a := rc)]
  timeouts := by rw [h.timeouts, htime, mem_cons, or_assoc, eq_comm (a := rc)]

theorem Fetch.Read.lastError {count : Nat} (h : Fetch.Read { result := result } codes f)
    (hs : .success ∉ codes) :
    (f.lastError count).isFailed = true ∧ f.lastError count ≠ .notFound ↔ Told codes count := by
  rcases eq_nil_or_concat codes with rfl | ⟨init, rc, rfl⟩
  · have herror : f.error = .maximumReturn := h.error
    refine iff_of_false ?_ ?_
    · by_cases hcount : count = 0
      · simp [Fetch.lastError, herror, hcount]
      · simp [Fetch.lastError, herror, hcount, ReturnT.isFailed]
    · rintro ⟨init, rc, hnil, -⟩
      simp at hnil
  · have herror : f.error = rc := by rw [h.error]; simp
    have hrc : rc ≠ .success := by
      rintro rfl
      simp at hs
    have htold : Told (init ++ [rc]) count ↔ rc ≠ .maximumReturn ∧ ¬(rc = .notFound ∧ count ≠ 0) ∧
        (f.connectionFailures = true ∨ f.timeouts = true ∨ count ≠ 0 ∧ rc.isFailed = true) := by
      have hconn : f.connectionFailures = true ↔ .connectionFailure ∈ init ++ [rc] := by
        simpa using h.connectionFailures
      have htime : f.timeouts = true ↔ .timeout ∈ init ++ [rc] := by simpa using h.timeouts
      rw [hconn, htime]
      constructor
      · rintro ⟨init', rc', heq, h'⟩
        obtain ⟨-, hlast⟩ := append_inj' heq rfl
        obtain rfl : rc = rc' := by simpa using hlast
        exact h'
      · exact fun h' => ⟨init, rc, rfl, h'⟩
    rw [concat_eq_append] at *
    rw [htold]
    unfold Fetch.lastError
    rw [herror]
    by_cases hmax : rc = .maximumReturn
    · subst hmax
      by_cases hcount : count = 0 <;> simp [hcount, ReturnT.isFailed]
    by_cases hmiss : rc = .notFound ∧ count ≠ 0
    · simp [hmiss, ReturnT.isFailed]
    rw [if_neg hmiss, if_neg (by simp [hmax]), if_neg hmax]
    simp only [hmax, hmiss, ne_eq, not_false_eq_true, true_and]
    by_cases hconn : f.connectionFailures = true
    · simp [hconn, ReturnT.isFailed]
    rw [if_neg hconn]
    by_cases htime : f.timeouts = true
    · simp [htime, ReturnT.isFailed]
    rw [if_neg htime, if_neg hrc]
    by_cases hcount : count = 0
    · simp [hconn, htime, hcount]
    · have hfound : rc ≠ .notFound := fun h => hmiss ⟨h, hcount⟩
      simp [hconn, htime, hcount, hfound]

theorem onServer_responds {k : Nat} {result' : Result} {c' : Client κ}
    (h : onServer k (responseInto K defaultCommandSize result) c = some ((rc, result'), c')) :
    ∃ lost, Responds K ⟨k, rc, lost⟩ c c' := by
  classical
  exact ⟨decide (c.OpenAt k ∧ ¬c'.OpenAt k), ⟨result, result', h⟩, decide_eq_true_iff⟩

theorem fetchLoop_hears (fuel : Nat) (f : Fetch) : Always (fetchLoop K poller fuel f) c fun r c' =>
      ∃ heard, Trace (Responds K) (BetweenResponses poller) c heard c' ∧
        (r.1 = true → ∃ init, heard.map FetchRead.rc = init ++ [.success] ∧ .success ∉ init) ∧
        (r.1 = false → .success ∉ heard.map FetchRead.rc ∧ f.Read (heard.map FetchRead.rc) r.2) := by
  induction fuel generalizing f c with
  | zero => exact .failure
  | succ fuel ih =>
    refine Always.bind (Q := fun r d => memcachedIoGetReadableServer poller c = some (r, d))
      (fun r d h => h) fun r d hchosen => ?_
    have hsilent : BetweenResponses poller c d := .inl ⟨r, hchosen⟩
    cases r with
    | none => exact .pure ⟨[], .silent hsilent (.nil d), nofun, fun _ => ⟨not_mem_nil, .nil f⟩⟩
    | some k =>
      refine Always.bind (Q := fun r e => onServer k (responseInto K defaultCommandSize f.result) d = some (r, e))
        (fun r e h => h) fun r e hread => ?_
      obtain ⟨rc, result⟩ := r
      obtain ⟨lost, hresponds⟩ := onServer_responds hread
      -- what the rest of the loop reads is read after this response
      have rest {g : Fetch} {d' : Client κ} (hne : rc ≠ .success)
          (hsilent' : ∀ {labels : List FetchRead} {u : Client κ},
            Trace (Responds K) (BetweenResponses poller) d' labels u →
            Trace (Responds K) (BetweenResponses poller) e labels u)
          (hg : ∀ {codes : List ReturnT} {f' : Fetch}, g.Read codes f' → f.Read (rc :: codes) f') :
          Always (fetchLoop K poller fuel g) d' fun r c' =>
            ∃ heard, Trace (Responds K) (BetweenResponses poller) c heard c' ∧
              (r.1 = true → ∃ init, heard.map FetchRead.rc = init ++ [.success] ∧ .success ∉ init) ∧
              (r.1 = false → .success ∉ heard.map FetchRead.rc ∧ f.Read (heard.map FetchRead.rc) r.2) := by
        refine (ih (c := d') g).mono fun r c' hr => ?_
        obtain ⟨heard, htrace, hfound, hmissing⟩ := hr
        refine ⟨⟨k, rc, lost⟩ :: heard, .silent hsilent (.step hresponds (hsilent' htrace)), fun h => ?_, fun h => ?_⟩
        · obtain ⟨init, hinit, hnot⟩ := hfound h
          exact ⟨rc :: init, by rw [map_cons, hinit]; rfl, by simp [hnot, Ne.symm hne]⟩
        · obtain ⟨hnot, hread⟩ := hmissing h
          exact ⟨by simpa [Ne.symm hne] using hnot, hg hread⟩
      -- the loop ends with this response
      have stop (hne : rc ≠ .success) (g : Fetch) (hg : f.Read [rc] g) :
          Always (pure (false, g) : Query κ (Bool × Fetch)) e fun r c' =>
            ∃ heard, Trace (Responds K) (BetweenResponses poller) c heard c' ∧
              (r.1 = true → ∃ init, heard.map FetchRead.rc = init ++ [.success] ∧ .success ∉ init) ∧
              (r.1 = false → .success ∉ heard.map FetchRead.rc ∧ f.Read (heard.map FetchRead.rc) r.2) :=
        .pure ⟨[⟨k, rc, lost⟩], .silent hsilent (.step hresponds (.nil e)), nofun,
          fun _ => ⟨by simpa using Ne.symm hne, hg⟩⟩
      dsimp only
      split
      · exact rest (by decide) id fun h => .cons rfl (by simp) (by simp) h
      · exact rest (by decide) id fun h => .cons rfl (by simp) (by simp) h
      · exact rest (by decide) id fun h => .cons rfl (by simp) (by simp) h
      · exact .pure ⟨[⟨k, .success, lost⟩], .silent hsilent (.step hresponds (.nil e)),
          fun _ => ⟨[], rfl, not_mem_nil⟩, nofun⟩
      · refine Always.bind (Q := fun _ d' => onServer k responseReset e = some ((), d')) (fun _ _ h => h)
          fun _ d' hreset => ?_
        exact rest (by decide) (fun h => .silent (.inr ⟨k, hreset⟩) h) fun h => .cons rfl (by simp) (by simp) h
      · exact rest (by decide) id fun h => .cons rfl (by simp) (by simp) h
      · next hin hconn htime hsuccess hend hmiss =>
        refine stop hsuccess _ (.cons rfl ?_ ?_ (.nil _))
        · exact (or_iff_left hconn).symm
        · exact (or_iff_left htime).symm

/-! ## All calls -/

theorem lastCall_append (init rest : List ReturnT) : lastCall (init ++ .success :: rest) = lastCall rest := by
  induction rest using List.reverseRecOn with
  | nil =>
    rw [lastCall, rtakeWhile_concat_neg _ _ _ (by decide)]
    rfl
  | append_singleton rest rc ih =>
    rw [← cons_append, ← append_assoc]
    by_cases hrc : rc = .success
    · rw [lastCall, lastCall, rtakeWhile_concat_neg _ _ _ (by simp [hrc]),
        rtakeWhile_concat_neg _ _ _ (by simp [hrc])]
    · rw [lastCall, lastCall, rtakeWhile_concat_pos _ _ _ (by simp [hrc]),
        rtakeWhile_concat_pos _ _ _ (by simp [hrc])]
      exact congrArg (· ++ [rc]) ih

theorem lastCall_eq_self (h : .success ∉ codes) : lastCall codes = codes := by
  refine rtakeWhile_eq_self_iff.mpr fun rc hrc => ?_
  simp only [bne_iff_ne, ne_eq]
  rintro rfl
  exact h hrc

/-- The error of the last call, and the codes it comes from. -/
theorem fetchRest_hears (fuel : Nat) (result : Result) (count : Nat) :
    Always (fetchRest K poller fuel result count) c fun rc c' =>
      ∃ heard, Trace (Responds K) (BetweenResponses poller) c heard c' ∧
        (rc.isFailed = true ∧ rc ≠ .notFound ↔
          Told (lastCall (heard.map FetchRead.rc)) (count + (heard.map FetchRead.rc).count .success)) := by
  induction fuel generalizing result count c with
  | zero => exact .failure
  | succ fuel ih =>
    refine Always.bind (Q := fun r d => ∃ heard, Trace (Responds K) (BetweenResponses poller) c heard d ∧
      (∀ found, r.1 = some found → r.2.2 = count + 1 ∧
        ∃ init, heard.map FetchRead.rc = init ++ [.success] ∧ .success ∉ init) ∧
      (r.1 = none → .success ∉ heard.map FetchRead.rc ∧
        (r.2.1.isFailed = true ∧ r.2.1 ≠ .notFound ↔ Told (heard.map FetchRead.rc) count))) ?_ fun r d hd => ?_
    · refine .get_bind ((fetchLoop_hears _ _).bind fun r d hd => ?_)
      obtain ⟨heard, htrace, hfound, hmissing⟩ := hd
      refine .ite (fun h => .pure ⟨heard, htrace, fun _ _ => ⟨rfl, hfound h⟩, nofun⟩) fun h =>
        .pure ⟨heard, htrace, nofun, fun _ => ?_⟩
      obtain ⟨hnot, hread⟩ := hmissing (Bool.eq_false_iff.mpr h)
      exact ⟨hnot, hread.lastError hnot⟩
    · obtain ⟨found, rc, count'⟩ := r
      obtain ⟨heard, htrace, hfound, hmissing⟩ := hd
      cases found with
      | none =>
        obtain ⟨hnot, htold⟩ := hmissing rfl
        refine .pure ⟨heard, htrace, ?_⟩
        rw [htold, lastCall_eq_self hnot, count_eq_zero.mpr hnot]
        rfl
      | some result =>
        obtain ⟨rfl, init, hinit, hnot⟩ := hfound result rfl
        refine (ih result (count + 1)).mono fun rc' e he => ?_
        obtain ⟨rest, hrest, htold⟩ := he
        refine ⟨heard ++ rest, htrace.append hrest, ?_⟩
        have hvalues : (init ++ .success :: rest.map FetchRead.rc).count ReturnT.success =
            1 + (rest.map FetchRead.rc).count .success := by
          rw [count_append, count_eq_zero.mpr hnot, count_cons_self]
          omega
        rw [htold, map_append, hinit, append_assoc, singleton_append, lastCall_append, hvalues,
          Nat.add_assoc]

/-- If a connection was lost before the end was read on it, the last call says so just if it shows in the codes
that were read after the last value. -/
theorem fetch_tells_lost (K : Kernel κ) (poller : Poller κ) (c : Client κ) (fuel : Nat) (result : Result) :
    Always (fetchRest K poller fuel result 0) c fun rc c' =>
      ∃ heard, Trace (Responds K) (BetweenResponses poller) c heard c' ∧
        (((∃ h ∈ heard, h.lost = true ∧ h.rc ≠ .end_) → rc.isFailed = true ∧ rc ≠ .notFound) ↔
          ((∃ h ∈ heard, h.lost = true ∧ h.rc ≠ .end_) →
            Told (lastCall (heard.map FetchRead.rc)) ((heard.map FetchRead.rc).count .success))) := by
  refine (fetchRest_hears fuel result 0).mono fun rc c' h => ?_
  obtain ⟨heard, htrace, htold⟩ := h
  rw [Nat.zero_add] at htold
  exact ⟨heard, htrace, imp_congr_right fun _ => htold⟩

/-- Two servers that owe a text answer each: from the first nothing comes, from the second a value. -/
def oneSilent : Client (List InByte) where
  memc := { servers := [.ofServer (Memcached.letterHost 'a'), .ofServer (Memcached.letterHost 'b')] }
  conns := [{ net := [], valid := true, cursorActive := 1 },
    { net := (ascii "VALUE a 0 1\r\nx\r\nEND\r\n").map fun b => ⟨b, 0, false⟩, valid := true, cursorActive := 1 }]

/-- The first server is lost before the value is read, and the call after that ends with `END`. -/
theorem fetch_hides_lost :
    Ensures (fetchRest (drip 0) (fun _ ks => .ok ks) 3 {} 0) oneSilent fun rc c' =>
      rc = .end_ ∧ c'.conns.map (·.valid) = [false, true] := by
  decide +kernel

end LM
