import LibMemcached.Impl.Commands
import LibMemcached.Proof.Requests

/-!
# Every binary request is answered once

Success is answered in the command handlers, everything else by `execute_command` from the status it
gets back. `Answered` says which packets a request gets, given what its callback returned: one final
packet for a command that is not quiet, after the entries of `STAT`; for a quiet one a packet only
if there is something to report. `executeCommand_answers` is the case of one request, for every
opcode and status, and `AnsweredAll` chains it over a sequence of requests.
-/

namespace LM

open List RequestHeader

variable {σ : Type} {call : Invocation} {p : Packet} {rval : Status}

/-- What is asked of the callbacks: their status does not end or pause the connection, `get` and
`version` call their response handler once if they succeed and never otherwise, and entries handed
over by `stat` have a key. -/
structure Interface.Regular (I : Interface σ) : Prop where
  not_einternal : ∀ app call, (I.answer app call).1.status ≠ .einternal
  not_notSupported : ∀ app call, (I.answer app call).1.status ≠ .notSupported
  hits : ∀ app key, (I.answer app (.get key)).1.hits.length =
    if (I.answer app (.get key)).1.status = .success then 1 else 0
  versions : ∀ app, (I.answer app .version).1.versions.length =
    if (I.answer app .version).1.status = .success then 1 else 0
  stats : ∀ app key, ∀ entry ∈ (I.answer app (.stat key)).1.stats, entry.key.getD [] ≠ []

/-- How a command reports: always, only errors, or only hits and errors. -/
inductive Reporting where
  | loud | quiet | quietGet
  deriving DecidableEq

/-- The quiet commands of the table of version 1, but for `QUITQ`. -/
def reporting (opcode : UInt8) : Reporting :=
  match opcode with
  | 0x09 | 0x0d => .quietGet
  | 0x11 | 0x12 | 0x13 | 0x14 | 0x15 | 0x16 | 0x18 | 0x19 | 0x1a => .quiet
  | _ => .loud

/-- `QUIT` and `QUITQ`. -/
def isQuit (opcode : UInt8) : Prop := opcode = 0x07 ∨ opcode = 0x17

instance : DecidablePred isQuit := fun _ => inferInstanceAs (Decidable (_ ∨ _))

/-- Every packet but an entry of `STAT` is the last one for its request. -/
def Packet.Final (p : Packet) : Prop :=
  ¬(p.opcode = Opcode.stat.toByte ∧ p.status = .success ∧ p.keylen ≠ 0)

/-- What came of the calls for a request: the status the callback returned, or `UNKNOWN_COMMAND` if
there is none. -/
inductive Returned (I : Interface σ) (app : σ) : List Invocation → Status → σ → Prop
  | missing : Returned I app [] .unknownCommand app
  | called (call : Invocation) (h : I.present call.callback) :
    Returned I app [call] (I.answer app call).1.status (I.answer app call).2

/-- The packets `ps` are what a request is due whose callback returned `outcome`. -/
structure Reported (r : RequestHeader) (outcome : Status) (ps : List Packet) : Prop where
  carries : ∀ p ∈ ps, p.opaque_ = r.opaque_
  loud : reporting r.opcode = .loud → ∃ entries last, ps = entries ++ [last] ∧
    (∀ p ∈ entries, ¬p.Final) ∧ last.Final ∧ last.status = outcome
  stat : r.opcode = Opcode.stat.toByte → outcome = .success → ∃ entries last,
    ps = entries ++ [last] ∧ (∀ p ∈ entries, ¬p.Final) ∧ last.bodylen = 0 ∧ last.body = []
  quiet : reporting r.opcode = .quiet →
    (outcome = .success → ps = []) ∧ (outcome ≠ .success → ∃ p, ps = [p] ∧ p.status = outcome)
  quietGet : reporting r.opcode = .quietGet →
    (outcome = .keyEnoent → ps = []) ∧ (outcome ≠ .keyEnoent → ∃ p, ps = [p] ∧ p.status = outcome)

/-- A request that made the calls `calls` got the packets it is due. What the callback for `NOOP`
returns does not matter. -/
def Answered (I : Interface σ) (r : RequestHeader) (app : σ) (calls : List Invocation)
    (ps : List Packet) (app' : σ) : Prop :=
  ∃ outcome, Returned I app calls outcome app' ∧
    Reported r (if r.opcode = Opcode.noop.toByte then .success else outcome) ps

/-- The same for a sequence of requests, one after the other. -/
inductive AnsweredAll (I : Interface σ) :
    σ → List Bytes → List Invocation → List Packet → σ → Prop
  | nil (app : σ) : AnsweredAll I app [] [] [] app
  | cons {app app' app'' : σ} {packet : Bytes} {requests : List Bytes}
    {calls calls' : List Invocation} {ps ps' : List Packet}
    (h : Answered I (.ofBytes packet) app calls ps app')
    (t : AnsweredAll I app' requests calls' ps' app'') :
    AnsweredAll I app (packet :: requests) (calls ++ calls') (ps ++ ps') app''

/-! ## Reports -/

section Reports

variable {r : RequestHeader}

theorem Reported.single (ho : p.opaque_ = r.opaque_) (hl : reporting r.opcode = .loud)
    (hs : r.opcode ≠ Opcode.stat.toByte) (hf : p.opcode ≠ Opcode.stat.toByte) : Reported r p.status [p] where
  carries := by simpa using ho
  loud _ := ⟨[], p, rfl, by simp, fun h => hf h.1, rfl⟩
  stat h := absurd h hs
  quiet h := by rw [hl] at h; cases h
  quietGet h := by rw [hl] at h; cases h

theorem Reported.silent (hq : reporting r.opcode = .quiet) : Reported r .success [] where
  carries := by simp
  loud h := by rw [hq] at h; cases h
  stat h := by rw [h] at hq; cases hq
  quiet _ := ⟨fun _ => rfl, fun h => absurd rfl h⟩
  quietGet h := by rw [hq] at h; cases h

theorem Reported.hit (ho : p.opaque_ = r.opaque_) (hs : p.status = .success)
    (hr : r.opcode ≠ Opcode.stat.toByte) (hq : reporting r.opcode ≠ .quiet)
    (hf : p.opcode ≠ Opcode.stat.toByte) : Reported r .success [p] where
  carries := by simpa using ho
  loud _ := ⟨[], p, rfl, by simp, fun h => hf h.1, hs⟩
  stat h := absurd h hr
  quiet h := absurd h hq
  quietGet _ := ⟨fun h => (nomatch h), fun _ => ⟨p, rfl, hs⟩⟩

theorem Reported.miss (hq : reporting r.opcode = .quietGet) : Reported r .keyEnoent [] where
  carries := by simp
  loud h := by rw [hq] at h; cases h
  stat h := by rw [h] at hq; cases hq
  quiet h := by rw [hq] at h; cases h
  quietGet _ := ⟨fun _ => rfl, fun h => absurd rfl h⟩

theorem Reported.entries {entries : List Packet} {last : Packet} (hr : r.opcode = Opcode.stat.toByte)
    (he : ∀ p ∈ entries, p.opaque_ = r.opaque_ ∧ ¬p.Final) (hl : last.opaque_ = r.opaque_)
    (hs : last.status = .success) (hk : last.keylen = 0) (hb : last.bodylen = 0 ∧ last.body = []) :
    Reported r .success (entries ++ [last]) where
  carries p hp := by
    rcases mem_append.mp hp with h | h
    · exact (he p h).1
    · obtain rfl := mem_singleton.mp h
      exact hl
  loud _ := ⟨entries, last, rfl, fun p hp => (he p hp).2, fun h => h.2.2 hk, hs⟩
  stat _ _ := ⟨entries, last, rfl, fun p hp => (he p hp).2, hb⟩
  quiet h := by rw [hr] at h; cases h
  quietGet h := by rw [hr] at h; cases h

theorem Reported.error {mem : Bytes} {entries : List Packet}
    (he : ∀ q ∈ entries, q.opaque_ = (ofBytes mem).opaque_ ∧ ¬q.Final)
    (hne : entries ≠ [] → (ofBytes mem).opcode = Opcode.stat.toByte) (h1 : rval ≠ .success)
    (h2 : reporting (ofBytes mem).opcode = .quietGet → rval ≠ .keyEnoent) :
    Reported (.ofBytes mem) rval (entries ++ [errorResponse mem rval]) := by
  -- A quiet command has no entries.
  have hnil (h : reporting (ofBytes mem).opcode ≠ .loud) : entries = [] := by
    by_cases hn : entries = []
    · exact hn
    · exact absurd (by rw [hne hn]; rfl) h
  refine ⟨fun q hq => ?_, fun _ => ?_, fun _ h => absurd h h1, fun h => ?_, fun h => ?_⟩
  · rcases mem_append.mp hq with h | h
    · exact (he q h).1
    · obtain rfl := mem_singleton.mp h
      rfl
  · exact ⟨entries, _, rfl, fun q hq => (he q hq).2, fun h => h.2.2 rfl, rfl⟩
  · rw [hnil (by rw [h]; decide)]
    exact ⟨fun h' => absurd h' h1, fun _ => ⟨_, rfl, rfl⟩⟩
  · rw [hnil (by rw [h]; decide)]
    exact ⟨fun h' => absurd h' (h2 h), fun _ => ⟨_, rfl, rfl⟩⟩

end Reports

/-! ## One request -/

/-- What a handler leaves is an answer to the request. -/
structure Answers (I : Interface σ) (mem : Bytes) (s : Serving σ) (h : Handled σ) : Prop where
  success : h.1 = .success
  answered : ∃ calls ps, h.2.calls = s.calls ++ calls ∧ h.2.packets = s.packets ++ ps ∧
    Answered I (.ofBytes mem) s.app calls ps h.2.app

section Handlers

variable {I : Interface σ} {mem : Bytes} {s : Serving σ}

theorem Serving.respond_respond (ps qs : List Packet) : (s.respond ps).respond qs = s.respond (ps ++ qs) := by
  simp [Serving.respond]

theorem reportStatus_success : reportStatus mem (.success, s) = (.success, s) := rfl

theorem reportStatus_error (h1 : rval ≠ .success) (h2 : rval ≠ .einternal) (h3 : rval ≠ .notSupported) :
    reportStatus mem (rval, s) = (.success, s.respond [errorResponse mem rval]) := by
  rw [reportStatus, if_neg (by rintro (h | h | h) <;> contradiction)]

theorem missing_answers (hn : (ofBytes mem).opcode ≠ Opcode.noop.toByte) :
    Answers I mem s (reportStatus mem (.unknownCommand, s)) := by
  refine ⟨rfl, [], [errorResponse mem .unknownCommand], (append_nil _).symm, rfl, _,
    .missing, ?_⟩
  rw [if_neg hn]
  exact Reported.error (fun _ h => absurd h not_mem_nil) (absurd rfl) (by decide)
    (fun _ => by decide)

theorem Answers.called {ps : List Packet} (hp : I.present call.callback)
    (hn : (ofBytes mem).opcode ≠ Opcode.noop.toByte)
    (hr : Reported (.ofBytes mem) (I.answer s.app call).1.status ps) :
    Answers I mem s (.success, (s.invoke I call).2.respond ps) :=
  ⟨rfl, [call], ps, rfl, rfl, _, .called call hp, by rwa [if_neg hn]⟩

/-- The status of a callback is success, or it is answered with an error packet. -/
theorem Answers.failed {entries : List Packet} (hI : I.Regular) (hp : I.present call.callback)
    (hn : (ofBytes mem).opcode ≠ Opcode.noop.toByte) (hs : (I.answer s.app call).1.status ≠ .success)
    (hq : reporting (ofBytes mem).opcode = .quietGet → (I.answer s.app call).1.status ≠ .keyEnoent)
    (he : ∀ q ∈ entries, q.opaque_ = (ofBytes mem).opaque_ ∧ ¬q.Final)
    (hne : entries ≠ [] → (ofBytes mem).opcode = Opcode.stat.toByte) : Answers I mem s (reportStatus mem
      ((I.answer s.app call).1.status, (s.invoke I call).2.respond entries)) := by
  rw [reportStatus_error hs (hI.not_einternal _ _) (hI.not_notSupported _ _),
    Serving.respond_respond]
  exact .called hp hn (Reported.error he hne hs hq)

/-- A command that calls its callback: what its response handler and the command handler send on
success, and what the response handler sends before an error. -/
theorem callHandler_answers {handed positive : Answer → List Packet} (hI : I.Regular)
    (hn : (ofBytes mem).opcode ≠ Opcode.noop.toByte) (hq : reporting (ofBytes mem).opcode ≠ .quietGet)
    (hsucc : (I.answer s.app call).1.status = .success → Reported (.ofBytes mem) .success (handed (I.answer s.app call).1 ++ positive (I.answer s.app call).1))
    (herr : (I.answer s.app call).1.status ≠ .success → (∀ q ∈ handed (I.answer s.app call).1, q.opaque_ = (ofBytes mem).opaque_ ∧ ¬q.Final) ∧ (handed (I.answer s.app call).1 ≠ [] → (ofBytes mem).opcode = Opcode.stat.toByte)) :
    Answers I mem s (reportStatus mem (callHandler I call handed positive s)) := by
  by_cases hp : I.present call.callback
  · rw [callHandler, if_pos hp]
    change Answers I mem s (reportStatus mem ((I.answer s.app call).1.status,
      if (I.answer s.app call).1.status = .success then _ else _))
    by_cases hs : (I.answer s.app call).1.status = .success
    · rw [if_pos hs, hs, reportStatus_success, Serving.respond_respond]
      exact .called hp hn (by rw [hs]; exact hsucc hs)
    · rw [if_neg hs]
      exact .failed hI hp hn hs (fun h => absurd h hq) (herr hs).1 (herr hs).2
  · rw [callHandler, if_neg hp]
    exact missing_answers hn

theorem loudHandler_answers {opcode : Opcode} {response : Answer → Packet} (hI : I.Regular)
    (hn : (ofBytes mem).opcode ≠ Opcode.noop.toByte)
    (hr : ∀ a, (response a).opaque_ = (ofBytes mem).opaque_ ∧ (response a).status = .success ∧ (response a).opcode = opcode.toByte)
    (hl : reporting opcode.toByte = .loud) (hst : opcode.toByte ≠ Opcode.stat.toByte)
    (ho : (ofBytes mem).opcode = opcode.toByte ∨ reporting (ofBytes mem).opcode = .quiet) :
    Answers I mem s (reportStatus mem (loudHandler I mem opcode call response s)) := by
  have hq : reporting (ofBytes mem).opcode ≠ .quietGet := by
    rcases ho with h | h
    · rw [h, hl]; decide
    · rw [h]; decide
  refine callHandler_answers hI hn hq (fun _ => ?_) (fun _ => ⟨by simp, by simp⟩)
  obtain ⟨h1, h2, h3⟩ := hr (I.answer s.app call).1
  by_cases h : (ofBytes mem).opcode = opcode.toByte
  · rw [if_pos h, nil_append, ← h2]
    exact .single h1 (by rw [h, hl]) (by rw [h]; exact hst) (by rw [h3]; exact hst)
  · rw [if_neg h, nil_append]
    exact .silent (ho.resolve_left h)

/-- `get_command_handler`, with the callback there. -/
theorem getCommandHandler_eq (hp : I.present .get) : getCommandHandler I mem s =
      (if (I.answer s.app (.get (storedKey mem 0))).1.status = .keyEnoent ∧
          ((ofBytes mem).opcode = Cmd.getq ∨ (ofBytes mem).opcode = Opcode.getkq.toByte) then .success
        else (I.answer s.app (.get (storedKey mem 0))).1.status,
        (s.invoke I (.get (storedKey mem 0))).2.respond
          ((I.answer s.app (.get (storedKey mem 0))).1.hits.map (getResponseHandler (.ofBytes mem)))) := by
  have hp' : I.present (Invocation.get (storedKey mem 0)).callback := hp
  rw [getCommandHandler, callHandler, if_pos hp']
  simp only [Serving.invoke, Serving.respond, append_nil, ite_self]
  split <;> rfl

theorem getCommandHandler_answers (hI : I.Regular) (hn : (ofBytes mem).opcode ≠ Opcode.noop.toByte)
    (hst : (ofBytes mem).opcode ≠ Opcode.stat.toByte) (hq : reporting (ofBytes mem).opcode ≠ .quiet)
    (hg : reporting (ofBytes mem).opcode = .quietGet ↔ (ofBytes mem).opcode = Cmd.getq ∨
        (ofBytes mem).opcode = Opcode.getkq.toByte) :
    Answers I mem s (reportStatus mem (getCommandHandler I mem s)) := by
  by_cases hp : I.present .get
  · have hhits := hI.hits s.app (storedKey mem 0)
    rw [getCommandHandler_eq hp]
    by_cases hs : (I.answer s.app (.get (storedKey mem 0))).1.status = .success
    · -- One call of the response handler, one packet.
      rw [if_pos hs] at hhits
      obtain ⟨hit, hhit⟩ := length_eq_one_iff.mp hhits
      rw [if_neg (by rw [hs]; rintro ⟨h, -⟩; cases h), hs, reportStatus_success, hhit]
      refine .called hp hn ?_
      rw [hs]
      exact .hit rfl rfl hst hq hst
    · rw [if_neg hs] at hhits
      rw [length_eq_zero_iff.mp hhits]
      by_cases hm : (I.answer s.app (.get (storedKey mem 0))).1.status = .keyEnoent ∧
          ((ofBytes mem).opcode = Cmd.getq ∨
            (ofBytes mem).opcode = Opcode.getkq.toByte)
      · rw [if_pos hm, reportStatus_success]
        refine .called hp hn ?_
        rw [hm.1]
        exact .miss (hg.mpr hm.2)
      · rw [if_neg hm]
        exact .failed hI hp hn hs (fun h h' => hm ⟨h', hg.mp h⟩)
          (fun _ h => absurd h not_mem_nil) (absurd rfl)
  · have hp' : ¬I.present (Invocation.get (storedKey mem 0)).callback := hp
    rw [getCommandHandler, callHandler, if_neg hp']
    exact missing_answers hn

theorem statCommandHandler_answers (hI : I.Regular) (ho : (ofBytes mem).opcode = Opcode.stat.toByte) :
    Answers I mem s (reportStatus mem (statCommandHandler I mem s)) := by
  have he : ∀ p ∈ (I.answer s.app (.stat (storedKey mem 0))).1.stats.map
      (statResponseHandler (.ofBytes mem)),
      p.opaque_ = (ofBytes mem).opaque_ ∧ ¬p.Final := by
    intro p hp
    obtain ⟨entry, hentry, rfl⟩ := mem_map.mp hp
    refine ⟨rfl, fun h => h ⟨ho, rfl, ?_⟩⟩
    exact fun h0 => hI.stats _ _ entry hentry (length_eq_zero_iff.mp h0)
  refine callHandler_answers hI (by rw [ho]; decide) (by rw [ho]; decide) (fun _ => ?_)
    (fun _ => ⟨he, fun _ => ho⟩)
  exact .entries ho he rfl rfl rfl ⟨rfl, rfl⟩

theorem versionCommandHandler_answers (hI : I.Regular)
    (ho : (ofBytes mem).opcode = Opcode.version.toByte) :
    Answers I mem s (reportStatus mem (versionCommandHandler I mem s)) := by
  have hv := hI.versions s.app
  refine callHandler_answers hI (by rw [ho]; decide) (by rw [ho]; decide) (fun hs => ?_)
    (fun hs => ?_)
  · rw [if_pos hs] at hv
    obtain ⟨text, htext⟩ := length_eq_one_iff.mp hv
    rw [htext]
    exact .hit rfl rfl (by rw [ho]; decide) (by rw [ho]; decide)
      (show (ofBytes mem).opcode ≠ _ by rw [ho]; decide)
  · rw [if_neg hs] at hv
    rw [length_eq_zero_iff.mp hv]
    exact ⟨by simp, by simp⟩

theorem noopCommandHandler_answers (ho : (ofBytes mem).opcode = Opcode.noop.toByte) :
    Answers I mem s (reportStatus mem (noopCommandHandler I mem s)) := by
  have hr : Reported (.ofBytes mem) .success [positiveResponse mem .noop 0] :=
    .single (p := positiveResponse mem .noop 0) rfl (by rw [ho]; rfl) (by rw [ho]; decide)
      (show Opcode.noop.toByte ≠ _ by decide)
  by_cases hp : I.present .noop
  · rw [noopCommandHandler, if_pos hp]
    exact ⟨rfl, [.noop], _, rfl, rfl, _, .called .noop hp, by rwa [if_pos ho]⟩
  · rw [noopCommandHandler, if_neg hp]
    exact ⟨rfl, [], _, (append_nil _).symm, rfl, _, .missing, by rwa [if_pos ho]⟩

variable (hI : I.Regular) (hq : ¬isQuit (ofBytes mem).opcode)
include hI hq

theorem comcodeV0V1Remap_answers {handler : Interface σ → Bytes → Serving σ → Handled σ}
    (h : comcodeV0V1Remap (ofBytes mem).opcode = some handler) :
    Answers I mem s (reportStatus mem (handler I mem s)) := by
  unfold comcodeV0V1Remap at h
  split at h
  -- One goal for each opcode: by the kind of its handler.
  all_goals first
    | (obtain rfl := Option.some.inj h
       rename_i ho
       first
        | exact loudHandler_answers hI (by rw [ho]; decide) (fun _ => ⟨rfl, rfl, rfl⟩) rfl
            (by decide) (by rw [ho]; decide)
        | exact getCommandHandler_answers hI (by rw [ho]; decide) (by rw [ho]; decide)
            (by rw [ho]; decide) (by rw [ho]; decide)
        | exact noopCommandHandler_answers ho
        | exact statCommandHandler_answers hI ho
        | exact versionCommandHandler_answers hI ho
        | exact absurd (by rw [ho]; simp [isQuit]) hq)
    | cases h

/-- Every request but `QUIT` and `QUITQ` gets the packets it is due. -/
theorem executeCommand_answers : Answers I mem s (executeCommand (.v1 I) none mem s) := by
  cases h : comcodeV0V1Remap (σ := σ) (ofBytes mem).opcode with
  | some handler =>
    have := comcodeV0V1Remap_answers (s := { s with
      executed := s.executed ++ [mem.take (ofBytes mem).total] }) hI hq h
    rw [executeCommand, unknownHandler, commandHandler, h]
    exact ⟨this.1, this.2⟩
  | none =>
    have hn : (ofBytes mem).opcode ≠ Opcode.noop.toByte := by
      intro ho
      rw [ho] at h
      cases h
    have := missing_answers (I := I) (s := { s with
      executed := s.executed ++ [mem.take (ofBytes mem).total] }) hn
    rw [executeCommand, unknownHandler, commandHandler, h]
    exact ⟨this.1, this.2⟩

end Handlers

/-! ## Sequences of requests -/

/-- The loop on packets that are all there, wherever it has moved them. -/
theorem binaryLoop_answers {I : Interface σ} (hI : I.Regular) (requests : List Bytes)
    (hc : ∀ p ∈ requests, Complete p)
    (hq : ∀ p ∈ requests, ¬isQuit (ofBytes p).opcode) (fuel : Nat)
    (hf : requests.length ≤ fuel) (buffer junk : Bytes) (header : Nat) (endptr : Option Nat)
    (s : Serving σ) (hb : buffer.drop header = requests.flatten ++ junk) :
    let w := binaryLoop (executeCommand (.v1 I) none) fuel buffer header requests.flatten.length
      endptr s
    w.event = .read ∧ w.length = 0 ∧
      ∃ calls ps, w.serving.calls = s.calls ++ calls ∧ w.serving.packets = s.packets ++ ps ∧
        AnsweredAll I s.app requests calls ps w.serving.app := by
  induction requests generalizing fuel buffer junk header endptr s with
  | nil =>
    have h : binaryLoop (executeCommand (.v1 I) none) fuel buffer header 0 endptr s =
        ⟨.read, buffer, 0, endptr, s⟩ := by
      cases fuel with
      | zero => rfl
      | succ fuel => rw [binaryLoop, if_neg (fun h => absurd h.1 (by decide))]
    simp only [flatten_nil, length_nil, h]
    exact ⟨trivial, trivial, [], [], by simp, by simp, .nil _⟩
  | cons p requests ih =>
    obtain ⟨fuel, rfl⟩ : ∃ n, fuel = n + 1 := ⟨fuel - 1, by simp at hf; omega⟩
    have hp := hc p mem_cons_self
    rw [flatten_cons, append_assoc] at hb
    have hr : ofBytes (p ++ (requests.flatten ++ junk)) = .ofBytes p :=
      ofBytes_append hp.header _
    have hx : Answers I (p ++ (requests.flatten ++ junk)) s (executeCommand (.v1 I) none _ s) :=
      executeCommand_answers hI (by rw [hr]; exact hq p mem_cons_self)
    obtain ⟨hs, calls, ps, hcalls, hps, hans⟩ := hx
    rw [hr] at hans
    obtain ⟨buffer', header', junk', hb', hloop⟩ := binaryLoop_step fuel endptr hp hb
      (Prod.ext hs rfl : executeCommand (.v1 I) none _ s = (.success, _)) (by decide) (by decide)
    obtain ⟨h1, h2, calls', ps', hcalls', hps', hans'⟩ := ih (fun q hq => hc q (.tail _ hq))
      (fun q h => hq q (.tail _ h)) fuel (by simpa using hf) buffer' junk' header' (some header')
      (executeCommand (.v1 I) none (p ++ (requests.flatten ++ junk)) s).2 hb'
    simp only [flatten_cons, length_append, hloop]
    refine ⟨h1, h2, calls ++ calls', ps ++ ps', ?_, ?_, .cons hans hans'⟩
    · rw [hcalls', hcalls, append_assoc]
    · rw [hps', hps, append_assoc]

/-- Whatever came before it on the connection, every request of a sequence of complete packets that
arrive together gets the packets it is due. -/
theorem requests_answered_once {I : Interface σ} (hI : I.Regular) (requests : List Bytes)
    (stale : Bytes) (s : Serving σ) (hc : ∀ p ∈ requests, Complete p)
    (hm : requests.flatten.head? = some binaryReq)
    (hq : ∀ p ∈ requests, ¬isQuit (ofBytes p).opcode) :
    let w := binaryProcessData (executeCommand (.v1 I) none) (requests.flatten ++ stale)
      requests.flatten.length s
    w.event = .read ∧ w.length = 0 ∧
      ∃ calls ps, w.serving.calls = s.calls ++ calls ∧ w.serving.packets = s.packets ++ ps ∧
        AnsweredAll I s.app requests calls ps w.serving.app := by
  have hmagic : (requests.flatten ++ stale).getD 0 0 = binaryReq := by
    obtain ⟨tail, ht⟩ := List.head?_eq_some_iff.mp hm
    rw [ht]
    rfl
  have hlen : requests.length ≤ requests.flatten.length := by
    rw [length_flatten, ← length_map (f := List.length)]
    refine length_le_sum_of_one_le _ fun n hn => ?_
    obtain ⟨p, hp, rfl⟩ := mem_map.mp hn
    exact (hc p hp).length_pos
  rw [binaryProcessData, if_neg (not_not_intro hmagic)]
  exact binaryLoop_answers hI requests hc hq _ hlen _ stale 0 none s rfl

/-- An application that knows one value and refuses to store. -/
def oneValue : Interface Unit where
  present _ := true
  answer app
    | .get key => ({ status := .success, hits := [⟨[97], key.take 1, 0, 7, by decide,
        Nat.lt_of_le_of_lt (length_take_le _ _) (by decide)⟩] }, app)
    | .version => ({ status := .success, versions := [[49]] }, app)
    | _ => ({ status := .notStored }, app)

theorem oneValue_regular : oneValue.Regular where
  not_einternal _ call := by cases call <;> simp [oneValue]
  not_notSupported _ call := by cases call <;> simp [oneValue]
  hits _ _ := rfl
  versions _ := rfl
  stats _ _ _ h := absurd h not_mem_nil

/-- `GETKQ a`, `DELETEQ a` and `VERSION`, as the client library encodes them: one packet each. -/
theorem requests_answered_once_three :
    let requests := [requestHeader .getkq 1 1 0 1 0 ++ [97], requestHeader .deleteq 2 1 0 1 0 ++ [97],
      requestHeader .version 3 0 0 0 0]
    let w := binaryProcessData (executeCommand (.v1 oneValue) none) (requests.flatten ++ [])
      requests.flatten.length { app := () }
    w.event = .read ∧ w.serving.packets.length = 3 ∧
      ∃ calls, AnsweredAll oneValue () requests calls w.serving.packets w.serving.app := by
  intro requests w
  obtain ⟨h1, -, calls, ps, -, h2, h3⟩ := requests_answered_once oneValue_regular requests []
    { app := () } (by decide) (by decide) (by decide)
  have hps : w.serving.packets = ps := h2
  exact ⟨h1, by decide +kernel, calls, hps ▸ h3⟩

end LM
