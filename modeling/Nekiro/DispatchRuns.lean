import Nekiro.DispatchHandler

/-!
# Runs of a dispatch

What the dispatch handlers can do, said once. Each part of a handler has
a relation between the record before it and the record after it, with
the answers of the surroundings as premises: `Opens` for the initial
events, `Answers` and `Closes` for a terminal event and what the client
is told of it, `Relay n` for a stream of which `n` chunks are in the
ledger. The handlers refine the relations (`jsonRun`, `streamRun`), and
every property of a run is proved over the relations.

Three counters and the validator of the source move in step; at `n`
chunks they are `n + 1`, `n`, `n + 3` and `streamState request n`.
-/

namespace Nekiro

namespace Dispatch

open Guard

/-! ## Records -/

/-- A reading of the context. -/
def Interaction.Quiet : Interaction → Prop
  | .contextErr _ => True
  | _ => False

/-- The record grew by readings of the context only. -/
def Quiets (log log' : Log) : Prop := ∃ qs : Log, log' = log ++ qs ∧ ∀ q ∈ qs, q.Quiet

theorem Quiets.refl (log : Log) : Quiets log log := ⟨[], by simp, by simp⟩

theorem Quiets.concat {log log' : Log} (h : Quiets log log') {x : Interaction} (hx : x.Quiet) :
    Quiets log (log' ++ [x]) := by
  obtain ⟨qs, rfl, hqs⟩ := h
  refine ⟨qs ++ [x], by simp, fun q hq => ?_⟩
  rcases List.mem_append.mp hq with hq | hq
  · exact hqs q hq
  · rw [List.mem_singleton.mp hq]
    exact hx

theorem Quiets.trans {log log1 log2 : Log} (h1 : Quiets log log1) (h2 : Quiets log1 log2) :
    Quiets log log2 := by
  obtain ⟨qs, rfl, hqs⟩ := h1
  obtain ⟨rs, rfl, hrs⟩ := h2
  exact ⟨qs ++ rs, by simp, List.forall_mem_append.mpr ⟨hqs, hrs⟩⟩

/-- **Induction over readings.** -/
theorem Quiets.induction {P : Log → Prop} {log log' : Log} (h : Quiets log log') (h0 : P log)
    (hstep : ∀ l x, P l → x.Quiet → P (l ++ [x])) : P log' := by
  obtain ⟨qs, rfl, hqs⟩ := h
  induction qs using List.reverseRecOn with
  | nil => simpa using h0
  | append_singleton qs x ih =>
      rw [← List.append_assoc]
      exact hstep _ _ (ih fun q hq => hqs q (by simp [hq])) (hqs x (by simp))

/-- The event an entry put into the ledger. -/
def Interaction.committed? : Interaction → Option InvocationEventV03
  | .append _ event true => some event
  | _ => none

/-- The events of a record the ledger has. -/
def committed (log : Log) : List InvocationEventV03 := log.filterMap Interaction.committed?

theorem committed_append (log log' : Log) :
    committed (log ++ log') = committed log ++ committed log' :=
  List.filterMap_append

theorem committed_concat (log : Log) (x : Interaction) :
    committed (log ++ [x]) = committed log ++ x.committed?.toList := by
  rw [committed_append]
  cases hx : x.committed? <;> simp [committed, hx]

theorem committed_quiets {log log' : Log} (h : Quiets log log') :
    committed log' = committed log := by
  refine h.induction (P := fun l => committed l = committed log) rfl fun l x hl hx => ?_
  rw [committed_concat, hl]
  cases x <;> first | exact List.append_nil _ | exact hx.elim

namespace Env

variable (env : Env)

/-! ## One interaction -/

section Bind

variable {α : Type} (log : Log)

theorem readContext_bind (f : Option ContextError → Program α) :
    (env.readContext >>= f) log
      = f (env.contextErr log) (log ++ [.contextErr (env.contextErr log)]) := rfl

theorem startedAt_bind (f : Time → Program α) :
    (env.startedAt >>= f) log = f (env.now log).truncateMicro (log ++ [.now (env.now log)]) := rfl

theorem sinceMS_bind (startedAt : Time) (f : Int → Program α) :
    (env.sinceMS startedAt >>= f) log
      = f (millisecondsSince startedAt (env.now log)) (log ++ [.since (env.now log)]) := rfl

theorem terminalOccurredAt_bind (startedAt : Time) (sequence : Int) (f : Time → Program α) :
    (env.terminalOccurredAt startedAt sequence >>= f) log
      = f (occurredAt startedAt sequence (env.now log)) (log ++ [.now (env.now log)]) := rfl

theorem appendEvent_bind (grace : Bool) (event : InvocationEventV03) (f : Bool → Program α) :
    (env.appendEvent grace event >>= f) log
      = f (env.append log grace event)
        (log ++ [.append grace event (env.append log grace event)]) :=
  rfl

theorem cancel_apply : cancel log = ((), log ++ [.cancel]) := rfl

end Bind

/-! ## Readings of the context -/

/-- A context that is done stays done. -/
theorem contextErr_append {log : Log} {c : ContextError} (h : env.contextErr log = some c)
    (xs : Log) : env.contextErr (log ++ xs) = some c := by
  induction xs using List.reverseRecOn with
  | nil => simpa using h
  | append_singleton xs x ih =>
      rw [← List.append_assoc]
      exact env.done _ x c ih

theorem contextErr_of_append {log xs : Log} (h : env.contextErr (log ++ xs) = none) :
    env.contextErr log = none := by
  cases hlog : env.contextErr log with
  | none => rfl
  | some c =>
      rw [env.contextErr_append hlog xs] at h
      exact nomatch h

/-- `contextTerminal` reads the context only, and misses no context that
was done before. -/
theorem contextTerminal_run (log : Log) :
    Quiets log (env.contextTerminal log).2
      ∧ ((∃ c : ContextError, (env.contextTerminal log).1 = some c.terminal)
        ∨ (env.contextTerminal log).1 = none ∧ env.contextErr log = none) := by
  have h1 : Quiets log (log ++ [.contextErr (env.contextErr log)]) :=
    (Quiets.refl log).concat trivial
  generalize hr : env.contextTerminal log = r
  simp only [contextTerminal, readContext_bind, Logged.ite_apply, Logged.pure_apply] at hr
  split_ifs at hr with hdeadline hcanceled <;> subst hr
  · exact ⟨h1, .inl ⟨.deadlineExceeded, rfl⟩⟩
  · exact ⟨h1.concat trivial, .inl ⟨.canceled, rfl⟩⟩
  · refine ⟨h1.concat trivial, .inr ⟨rfl, ?_⟩⟩
    cases hlog : env.contextErr log with
    | none => rfl
    | some c =>
        cases c with
        | deadlineExceeded => exact absurd hlog hdeadline
        | canceled =>
            rw [env.contextErr_append hlog] at hcanceled
            exact absurd rfl hcanceled

/-- Apart from the context's own codes, the code is the error's. -/
theorem streamErrorCode_run (err : GoError) (log : Log) :
    Quiets log (env.streamErrorCode err log).2
      ∧ ((env.streamErrorCode err log).1.known = true
        ∨ (env.streamErrorCode err log).1 = streamCode none err) := by
  have h1 : Quiets log (log ++ [.contextErr (env.contextErr log)]) :=
    (Quiets.refl log).concat trivial
  generalize hr : env.streamErrorCode err log = r
  simp only [streamErrorCode, readContext_bind, Logged.ite_apply, Logged.pure_apply] at hr
  split_ifs at hr with hinterrupted hdeadline hcanceled <;> subst hr
  · exact ⟨Quiets.refl log, .inl rfl⟩
  · exact ⟨h1, .inl rfl⟩
  · exact ⟨h1.concat trivial, .inl rfl⟩
  · refine ⟨h1.concat trivial, .inr ?_⟩
    rw [not_or] at hdeadline hcanceled
    simp [streamCode, hinterrupted, hdeadline.2, hcanceled.2]

/-- The code of a context error is one of the table. -/
theorem streamErrorCode_context (c : ContextError) (log : Log) :
    (env.streamErrorCode c.err log).1.known = true := by
  rcases (env.streamErrorCode_run c.err log).2 with h | h
  · exact h
  · rw [h]
    cases c <;> rfl

/-- The code of a failed write; it is a context's code only when the
context was seen done. -/
theorem streamWriteErrorCode_run (err : GoError) (log : Log) :
    Quiets log (env.streamWriteErrorCode err log).2
      ∧ (env.streamWriteErrorCode err log).1.known = true
      ∧ ((env.streamWriteErrorCode err log).1 = .agentResponseTooLarge
        ∨ (env.streamWriteErrorCode err log).1 = .dependency
        ∨ ∃ c, .contextErr (some c) ∈ (env.streamWriteErrorCode err log).2) := by
  have h1 : Quiets log (log ++ [.contextErr (env.contextErr log)]) :=
    (Quiets.refl log).concat trivial
  simp only [streamWriteErrorCode, readContext_bind]
  cases hlog : env.contextErr log with
  | none =>
      rw [hlog] at h1
      simp only [Logged.pure_apply]
      split_ifs
      · exact ⟨h1, rfl, .inl rfl⟩
      · exact ⟨h1, rfl, .inr (.inl rfl)⟩
  | some c =>
      rw [hlog] at h1
      obtain ⟨hq, -⟩ := env.streamErrorCode_run c.err (log ++ [.contextErr (some c)])
      refine ⟨h1.trans hq, env.streamErrorCode_context c _, .inr (.inr ⟨c, ?_⟩)⟩
      obtain ⟨qs, hqs, -⟩ := hq
      rw [hqs]
      simp

end Env

/-! ## Terminal events -/

section Terminal

variable (env : Env) (request : DispatchInvocationRequestV1) (startedAt : Time)

/-- A terminal event with a code, and the answer on the JSON path. An
event that is not committed is answered as a failure of the ledger. -/
inductive Answers (sequence : Int) (eventType : EventType) (status : InvocationStatus)
    (occurredAt : Time) (latency : Int) (code : PlatformErrorCode) (log : Log) : Log → Prop where
  | unknown (hcode : code.known = false) :
      Answers sequence eventType status occurredAt latency code log
        (log ++ [.respond (correlatedResponse request .dependency)])
  | attempted {event : InvocationEventV03} {committed : Bool} (hcode : code.known = true)
      (hevent : event = terminalEvent request sequence eventType status occurredAt latency code)
      (happend : env.append log true event = committed) :
      Answers sequence eventType status occurredAt latency code log
        (log ++ [.append true event committed]
          ++ [.respond (correlatedResponse request (if committed then code else .dependency))])

/-- The writer of an open stream. -/
def Env.openWriter : ResultStreamWriter := ⟨env.sseEventLimitBytes, true⟩

/-- A terminal event the validator has accepted goes to the writer. -/
inductive Shows (event : InvocationResultStreamEventV2) (log : Log) : Log → Prop where
  | refused {err : GoError} (hencode : env.openWriter.encode event = .error err) :
      Shows event log (log ++ [.refused event] ++ [.cancel])
  | broken {bytes : Json.Bytes} {failure : GoError}
      (hencode : env.openWriter.encode event = .ok bytes)
      (hwrite : env.write log bytes = some failure) :
      Shows event log (log ++ [.frame event bytes (some failure)] ++ [.cancel])
  | shown {bytes : Json.Bytes} (hencode : env.openWriter.encode event = .ok bytes)
      (hwrite : env.write log bytes = none) :
      Shows event log (log ++ [.frame event bytes none])

/-- The terminal event of a stream with `n` chunks for a code. -/
def terminalFrame (n : Nat) (code : PlatformErrorCode) : InvocationResultStreamEventV2 :=
  failureEvent request (n + 1) (streamFailureType code) code

/-- The ledger's terminal event of a stream with `n` chunks, with
readings for its latency and its time. -/
def terminalEntry (n : Nat) (outcome : ResultStreamEventType × InvocationStatus)
    (code : PlatformErrorCode) (since now : Time) : InvocationEventV03 :=
  terminalEvent request (n + 3) outcome.1.eventType outcome.2
    (Env.occurredAt startedAt (n + 3) now) (Env.millisecondsSince startedAt since) code

/-- A stream with `n` chunks fails with a code. -/
inductive Closes (n : Nat) (code : PlatformErrorCode) (log : Log) : Log → Prop where
  | unknown (hcode : code.known = false) : Closes n code log (log ++ [.cancel])
  | attempted {t t' : Time} {event : InvocationEventV03} {committed : Bool} {out : Log}
      (hcode : code.known = true)
      (hevent : event = terminalEntry request startedAt n (streamFailureType code) code t t')
      (happend : env.append (log ++ [.since t] ++ [.now t']) true event = committed)
      (hshow : Shows env (terminalFrame request n (if committed then code else .dependency))
        (log ++ [.since t] ++ [.now t'] ++ [.append true event committed]) out) :
      Closes n code log out

/-- The validator of a stream with `n` chunks. -/
def streamState (n : Nat) : RuntimeResultStreamSequenceValidator :=
  ⟨request.invocationID, request.rootTaskID, request.traceID, n + 1, n, false, false⟩

end Terminal

/-! ### The handler's terminal events -/

section TerminalRuns

variable {env : Env} {request : DispatchInvocationRequestV1} {startedAt : Time}

theorem answers_run (hreq : request.Traceable) (sequence : Int) (eventType : EventType)
    (status : InvocationStatus) (occurredAt : Time) (latency : Int) (code : PlatformErrorCode)
    (log : Log) :
    Answers env request sequence eventType status occurredAt latency code log
      ((env.appendTerminal request sequence eventType status occurredAt latency code
        >>= Env.answerFailure request code) log).2 := by
  unfold Env.appendTerminal
  cases hcode : code.known with
  | true =>
      rw [terminalLifecycleEvent_eq hreq hcode]
      exact .attempted hcode rfl rfl
  | false =>
      obtain ⟨err, herr⟩ := terminalLifecycleEvent_unknown hcode request sequence eventType status
        occurredAt latency
      rw [herr]
      exact .unknown hcode

/-- What `Write` does with an event. -/
theorem writeFrame_run (writer : ResultStreamWriter) (event : InvocationResultStreamEventV2)
    (log : Log) :
    (∃ err, writer.encode event = .error err
        ∧ env.writeFrame writer event log = ((some err, writer), log ++ [.refused event]))
      ∨ ∃ bytes, writer.encode event = .ok bytes
        ∧ env.writeFrame writer event log =
          ((env.write log bytes, { writer with committed := true }),
          log ++ [.frame event bytes (env.write log bytes)]) := by
  unfold Env.writeFrame
  cases writer.encode event with
  | error err => exact .inl ⟨err, rfl, rfl⟩
  | ok bytes => exact .inr ⟨bytes, rfl, rfl⟩

theorem shows_run {sequence sequence' : RuntimeResultStreamSequenceValidator}
    {event : InvocationResultStreamEventV2} (haccept : sequence.accept event = .ok sequence')
    (rejected : Program Unit) (log : Log) :
    Shows env event log (env.showTerminal env.openWriter sequence event rejected log).2 := by
  unfold Env.showTerminal
  rw [haccept]
  simp only [Logged.bind_apply]
  rcases writeFrame_run env.openWriter event log with ⟨err, hencode, hrun⟩ | ⟨bytes, hencode, hrun⟩
  · rw [hrun]
    simpa [Env.cancel_apply] using Shows.refused hencode
  · rw [hrun]
    cases hwrite : env.write log bytes with
    | none => simpa using Shows.shown hencode hwrite
    | some failure => simpa [Env.cancel_apply] using Shows.broken hencode hwrite

/-- The validator accepts an event of the stream at its place. -/
theorem accept_streamState {n : Nat} {event : InvocationResultStreamEventV2}
    (hvalid : validateInvocationResultStreamEventV2 event = .ok ())
    (hids : event.invocationID = request.invocationID ∧ event.rootTaskID = request.rootTaskID
      ∧ event.traceID = request.traceID)
    (hseq : event.sequence = n + 1) (htype : event.type ≠ .accepted)
    (hchunk : event.type = .chunk → event.chunkIndex = some (n : Int)) :
    (streamState request n).accept event = .ok ((streamState request n).next event) :=
  RuntimeResultStreamSequenceValidator.accept_ok_iff.mpr
    ⟨hvalid, ⟨rfl, rfl, hids, hseq, fun h => absurd h (by simp only [streamState]; omega),
      fun _ => htype, hchunk⟩, rfl⟩

theorem accept_terminalFrame (hreq : request.Traceable) (n : Nat) {code : PlatformErrorCode}
    (hcode : code.known = true) :
    (streamState request n).accept (terminalFrame request n code)
      = .ok ((streamState request n).next (terminalFrame request n code)) := by
  refine accept_streamState (validate_failureEvent hreq hcode (by omega)) ⟨rfl, rfl, rfl⟩ rfl ?_ ?_
  · cases code <;> exact nofun
  · cases code <;> exact nofun

theorem accept_completed (hreq : request.Traceable) (n : Nat) :
    (streamState request n).accept (resultStreamEvent request (n + 1) .completed .succeeded)
      = .ok ((streamState request n).next
        (resultStreamEvent request (n + 1) .completed .succeeded)) :=
  accept_streamState (validate_completedEvent hreq (by omega)) ⟨rfl, rfl, rfl⟩ rfl nofun nofun

theorem reports_run (hreq : request.Traceable) (n : Nat) {code : PlatformErrorCode}
    (hcode : code.known = true) (log : Log) :
    Shows env (terminalFrame request n code) log
      (env.finishStreamingFailureWithoutLedger env.openWriter (streamState request n) request
        (n + 1) code log).2 := by
  unfold Env.finishStreamingFailureWithoutLedger
  dsimp only
  rw [streamFailureEvent_eq hreq hcode]
  exact shows_run (accept_terminalFrame hreq n hcode) cancel log

theorem closes_run (hreq : request.Traceable) (n : Nat) (code : PlatformErrorCode) (log : Log) :
    Closes env request startedAt n code log
      (env.finishStreamingFailure env.openWriter (streamState request n) request startedAt
        (n + 1) (n + 3) code log).2 := by
  unfold Env.finishStreamingFailure
  dsimp only
  cases hcode : code.known with
  | false =>
      obtain ⟨err, herr⟩ := streamFailureEvent_unknown hcode request (n + 1)
        (streamFailureType code).1 (streamFailureType code).2
      rw [herr]
      exact .unknown hcode
  | true =>
      rw [streamFailureEvent_eq hreq hcode]
      simp only [Env.appendStreamingTerminal, Env.appendTerminal, Env.sinceMS_bind,
        Logged.bind_bind, Env.terminalOccurredAt_bind, terminalLifecycleEvent_eq hreq hcode,
        Env.appendEvent_bind]
      generalize hcommitted : env.append _ true _ = committed
      refine .attempted hcode rfl hcommitted ?_
      cases committed with
      | true => exact shows_run (accept_terminalFrame hreq n hcode) cancel _
      | false => exact reports_run hreq n rfl _

end TerminalRuns

end Dispatch

end Nekiro
