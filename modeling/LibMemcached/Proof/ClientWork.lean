import LibMemcached.Framework.Run
import LibMemcached.Impl.Handler

/-!
# One `recv` after the other

`memcached_protocol_client_work` goes on reading as long as nothing is left over, and the application
calls it again. For the connection it makes no difference which call a `recv` belongs to: its results
are taken one after the other until an event ends the connection (`serve_data`).
-/

namespace LM

open List

variable {σ : Type} (service : Service σ)

/-- A result of `recv` arrives, unless the connection has ended. -/
def receiveNext : Event × ServerClient σ → Recv → Event × ServerClient σ
  | (.read, c), recv => receive service recv c
  | (event, c), _ => (event, c)

variable {service}

theorem runFrom_ended {event : Event} (h : event ≠ .read) {c : ServerClient σ} {recvs : List Recv} :
    runFrom (receiveNext service) (event, c) recvs = (event, c) := by
  induction recvs with
  | nil => rfl
  | cons r recvs ih =>
    rw [runFrom_cons]
    cases event with
    | read => exact absurd rfl h
    | _ => exact ih

variable (recvs : List Recv) (c : ServerClient σ)

theorem clientWork_takes : ∃ used rest event c', recvs = used ++ rest ∧
      clientWork service (recvs.map .data) c = (event, rest.map .data, c') ∧
      runFrom (receiveNext service) (.read, c) used = (event, c') ∧ (recvs ≠ [] → used ≠ []) := by
  induction recvs generalizing c with
  | nil => exact ⟨[], [], .read, c, rfl, rfl, rfl, id⟩
  | cons r recvs ih =>
    cases hr : receive service r c with
    | mk event c' =>
      have hstop (h : clientWork service ((r :: recvs).map .data) c = (event, recvs.map .data, c')) :
          ∃ used rest event c', r :: recvs = used ++ rest ∧
            clientWork service ((r :: recvs).map .data) c = (event, rest.map .data, c') ∧
            runFrom (receiveNext service) (.read, c) used = (event, c') ∧
            (r :: recvs ≠ [] → used ≠ []) :=
        ⟨[r], recvs, event, c', rfl, h, hr, fun _ => cons_ne_nil _ _⟩
      cases event with
      | read =>
        by_cases hc : c'.inputBuffer = []
        · obtain ⟨used, rest, event, c'', hsplit, hwork, hrun, -⟩ := ih c'
          refine ⟨r :: used, rest, event, c'', congrArg _ hsplit, ?_, ?_, fun _ => cons_ne_nil _ _⟩
          · simp only [map_cons, clientWork, hr, if_pos hc, hwork]
          · rw [runFrom_cons]
            exact (congrArg (runFrom _ · used) hr).trans hrun
        · exact hstop (by simp only [map_cons, clientWork, hr, if_neg hc])
      | error | pause | undefined => exact hstop (by simp only [map_cons, clientWork, hr])

/-- The calls take the results of `recv` one after the other. -/
theorem serve_data : serve service (recvs.map .data) c = runFrom (receiveNext service) (.read, c) recvs := by
  suffices ∀ fuel (recvs : List Recv) c, recvs.length ≤ fuel → serveFor service fuel (recvs.map .data) c =
      runFrom (receiveNext service) (.read, c) recvs from
    this _ _ _ (Nat.le_of_eq (length_map _).symm)
  intro fuel
  induction fuel with
  | zero =>
    intro recvs c h
    obtain rfl : recvs = [] := length_eq_zero_iff.mp (Nat.le_zero.mp h)
    rfl
  | succ fuel ih =>
    intro recvs c h
    cases recvs with
    | nil => rfl
    | cons r recvs =>
      obtain ⟨used, rest, event, c', hsplit, hwork, hrun, hused⟩ :=
        @clientWork_takes σ service (r :: recvs) c
      have hlen : rest.length ≤ fuel := by
        have := congrArg List.length hsplit
        have := length_pos_iff.mpr (hused (cons_ne_nil _ _))
        simp only [length_cons, length_append] at *
        omega
      have htotal : runFrom (receiveNext service) (.read, c) (r :: recvs) =
          runFrom (receiveNext service) (event, c') rest := by
        rw [hsplit, runFrom, foldl_append]
        exact congrArg (runFrom _ · rest) hrun
      rw [map_cons] at hwork ⊢
      rw [htotal, serveFor, hwork]
      cases event with
      | read => exact ih rest c' hlen
      | _ => exact (runFrom_ended (by decide)).symm

end LM
