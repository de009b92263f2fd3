import Nekiro.DispatchComplete

/-!
# How errors are classified

The A2A client gives platform codes to the errors of the transport
(`classifyTransportError`). The handler then derives a terminal event and
a code from the error: on the JSON path by `dispatchErrorCode` alone, on
the streaming path by `streamErrorCode`.

The two agree on cancellations and deadlines exactly when the error is
`Settled`: a cancellation has to carry its code, because
`dispatchErrorCode` knows only the sentinel of the deadline.
-/

namespace Nekiro

namespace Transport

/-- `a2atransport.FailureKind`. -/
inductive FailureKind where
  | deadlineExceeded
  | canceled
  | remoteAgent
  | unavailable
  | responseTooLarge
  | invalidArgument
  | protocol
  | other
deriving Repr, DecidableEq

/-- The error type of the transport library: `FailureKindOf` and
`errors.Unwrap` of the failure in an error. -/
class Failures where
  kindOf : GoError → Option FailureKind
  cause : GoError → Option GoError

variable [Failures]

/-- `classify`; the handler never reads the text of an error. -/
def classify (code : PlatformErrorCode) (cause : GoError) : GoError := .coded code cause

def transportCause (err : GoError) : GoError := (Failures.cause err).getD err

/-- The first coded error in a tree, as `errors.As` hands it out. -/
def coded? : GoError → Option GoError
  | .sentinel _ => none
  | .plain _ => none
  | .coded code cause => some (.coded code cause)
  | .wrapped cause => coded? cause
  | .joined left right => (coded? left).or (coded? right)

def classifyTransportError (err : GoError) : GoError :=
  match coded? err with
  | some classified => classified
  | none =>
      if err.is .deadlineExceeded then classify .timeout (transportCause err)
      else if err.is .canceled then classify .canceled (transportCause err)
      else match Failures.kindOf err with
        | some .deadlineExceeded => classify .timeout (transportCause err)
        | some .canceled => classify .canceled (transportCause err)
        | some .remoteAgent => classify .agentExecutionFailed (transportCause err)
        | some .unavailable => classify .agentUnavailable (transportCause err)
        | some .responseTooLarge => classify .agentResponseTooLarge (transportCause err)
        | some .invalidArgument | some .protocol => classify .a2aProtocol (transportCause err)
        | some .other | none => classify .a2aProtocol err

end Transport

namespace Dispatch

open Transport

/-! ## What a client and the ledger are told -/

/-- The type and status of a terminal event and its code. -/
abbrev Verdict := EventType × InvocationStatus × PlatformErrorCode

/-- The verdict of the JSON path. -/
def jsonVerdict (err : GoError) : Verdict :=
  ((outcomeType (dispatchErrorCode err)).1, (outcomeType (dispatchErrorCode err)).2,
    dispatchErrorCode err)

/-- The verdict of the streaming path on a code. -/
def streamVerdict (code : PlatformErrorCode) : Verdict :=
  ((streamFailureType code).1.eventType, (streamFailureType code).2, code)

/-- Terminal events and responses carry the verdict. -/
structure Reports (log : Log) (verdict : Verdict) : Prop where
  recorded : ∀ e ∈ outcomes log,
    e.type = verdict.1 ∧ e.status = verdict.2.1 ∧ e.error.map (·.code) = some verdict.2.2
  answered : ∀ response, .respond response ∈ log →
    (Interaction.respond response).code? = some verdict.2.2

/-- Cancellations and deadlines are reported as such, and as the
streaming path reports them for the same error and context. -/
structure Uniform (log : Log) (context : Option ContextError) (err : GoError) : Prop where
  canceled : err.is .canceled = true → Reports log (.canceled, .canceled, .canceled)
  deadline : err.is .deadlineExceeded = true → Reports log (.timedOut, .timedOut, .timeout)
  streaming : err.is .canceled = true ∨ err.is .deadlineExceeded = true →
    ∀ (env : Env) (log' : Log), env.contextErr log' = context →
      env.contextErr (log' ++ [.contextErr context]) = context →
      Reports log (streamVerdict (env.streamErrorCode err log').1)

/-- A cancellation carries its code, is nothing else and is not past the
deadline; a deadline is nothing else. -/
structure Settled (context : Option ContextError) (err : GoError) : Prop where
  canceled : err.is .canceled = true → err.code? = some .canceled
    ∧ err.is .deadlineExceeded = false ∧ err.is .interrupted = false
    ∧ context ≠ some .deadlineExceeded
  deadline : err.is .deadlineExceeded = true → err.is .canceled = false
    ∧ err.is .interrupted = false

/-! ## Codes -/

theorem streamErrorCode_eq {env : Env} {log : Log} {context : Option ContextError}
    (h : env.contextErr log = context)
    (h' : env.contextErr (log ++ [.contextErr context]) = context) (err : GoError) :
    (env.streamErrorCode err log).1 = streamCode context err := by
  generalize hr : env.streamErrorCode err log = r
  simp only [Env.streamErrorCode, Env.readContext_bind, Logged.ite_apply, Logged.pure_apply, h,
    h'] at hr
  unfold streamCode
  split_ifs at hr ⊢ <;> subst hr <;> rfl

/-- Surroundings with a standing context. -/
def Env.standing (context : Option ContextError) : Env :=
  { Env.calm [] with
    contextErr := fun _ => context
    done := fun _ _ _ h => h }

variable {err : GoError} {context : Option ContextError}

theorem jsonVerdict_eq_iff {code : PlatformErrorCode} :
    jsonVerdict err = streamVerdict code ↔ dispatchErrorCode err = code := by
  constructor
  · intro h
    exact (Prod.mk.inj (Prod.mk.inj h).2).2
  · rintro rfl
    have htype := eventType_streamFailureType (dispatchErrorCode err)
    unfold jsonVerdict streamVerdict
    rw [← htype]

theorem dispatchErrorCode_canceled_iff :
    dispatchErrorCode err = .canceled ↔
      err.code? = some .canceled ∧ err.is .deadlineExceeded = false := by
  unfold dispatchErrorCode
  cases err.is .deadlineExceeded <;> cases err.code? <;> simp

theorem dispatchErrorCode_deadline (h : err.is .deadlineExceeded = true) :
    dispatchErrorCode err = .timeout := by
  rw [dispatchErrorCode, if_pos h]

/-- The codes of the two paths agree on a cancellation. -/
theorem streamCode_canceled_iff (h : err.is .canceled = true) :
    streamCode context err = .canceled ↔ err.is .interrupted = false
      ∧ context ≠ some .deadlineExceeded ∧ err.is .deadlineExceeded = false := by
  unfold streamCode
  rw [if_pos (.inr h : context = some .canceled ∨ _)]
  split_ifs with hinterrupted hdeadline
  · simp [hinterrupted]
  · rcases hdeadline with hdeadline | hdeadline <;> simp [hdeadline]
  · rw [not_or] at hdeadline
    simp_all

theorem streamCode_deadline_iff (h : err.is .deadlineExceeded = true) :
    streamCode context err = .timeout ↔ err.is .interrupted = false := by
  unfold streamCode
  split_ifs with hinterrupted <;> simp_all

/-! ## The outcome of a JSON dispatch -/

section Outcome

variable (env : Env) (request : DispatchInvocationRequestV1)

/-- The initial events of the dispatch. -/
def Env.opening : Bool × Log :=
  env.appendInitialLedgerEventsMode request (env.now []).truncateMicro (isChild request)
    (initialEvents request (env.now []).truncateMicro) [.now (env.now [])]

/-- The invocation is accepted: its initial events are committed. -/
def Env.Accepts : Prop := (env.opening request).1 = true

/-- The context when the agent has answered. -/
def Env.answerContext : Option ContextError :=
  env.contextErr ((env.opening request).2 ++ [.sendNonStreaming])

/-- The error of the agent's answer, or of the context. -/
def Env.answerError : Option GoError :=
  match env.nonStreaming with
  | .error err => some err
  | .ok _ => (env.answerContext request).map ContextError.err

end Outcome

section Runs

variable {env : Env} {request : DispatchInvocationRequestV1}

/-- Nothing terminal is recorded and nobody answered yet. -/
structure Unanswered (log : Log) : Prop where
  outcomes : outcomes log = []
  silent : ∀ response, .respond response ∉ log

/-- Neither an append nor a response. -/
def Interaction.Mute : Interaction → Prop
  | .append _ _ _ | .respond _ => False
  | _ => True

theorem Unanswered.concat {log : Log} (h : Unanswered log) (x : Interaction) (hx : x.Mute) :
    Unanswered (log ++ [x]) where
  outcomes := by
    have hinert : x.Inert := by cases x <;> trivial
    rw [outcomes_concat, committed_of_inert hinert, h.outcomes]
    rfl
  silent response hmem := by
    rcases List.mem_append.mp hmem with hmem | hmem
    · exact h.silent response hmem
    · rw [← List.mem_singleton.mp hmem] at hx
      exact hx

theorem unanswered_opening (hreq : request.Traceable) (haccepts : env.Accepts request) :
    Unanswered (env.opening request).2 := by
  have hopen : Opens env request (env.now []).truncateMicro (isChild request)
      (initialEvents request (env.now []).truncateMicro) [.now (env.now [])]
      (env.opening request) := opens_run hreq _ _ _
  have hresult : env.opening request = (true, (env.opening request).2) := Prod.ext haccepts rfl
  rw [hresult] at hopen
  rw [hopen.log_eq]
  exact ⟨rfl, by simp [initialEvents]⟩

theorem dispatchNonStreaming_eq (haccepts : env.Accepts request) :
    (env.dispatchNonStreamingWithLedger request none []).2
      = (env.callAgent request (env.now []).truncateMicro (env.opening request).2).2 := by
  unfold Env.dispatchNonStreamingWithLedger
  rw [Env.startedAt_bind]
  show ((if (env.opening request).1 = true then env.callAgent request (env.now []).truncateMicro
    else pure ()) (env.opening request).2).2 = _
  have htrue : (env.opening request).1 = true := haccepts
  simp only [htrue, if_true]

/-- An error is recorded and answered after the latency was measured. -/
theorem callAgent_answers (hreq : request.Traceable) (haccepts : env.Accepts request)
    {err : GoError} (herr : env.answerError request = some err) :
    ∃ log occurredAt latency, Unanswered log
      ∧ Answers env request 3 (jsonVerdict err).1 (jsonVerdict err).2.1 occurredAt latency
        (jsonVerdict err).2.2 log (env.dispatchNonStreamingWithLedger request none []).2 := by
  have hsend := (unanswered_opening hreq haccepts).concat .sendNonStreaming trivial
  rw [dispatchNonStreaming_eq haccepts]
  unfold Env.callAgent
  rw [Logged.bind_apply]
  generalize hrun : env.sendNonStreaming (env.opening request).2 = r
  unfold Env.sendNonStreaming at hrun
  rw [Logged.bind_apply, Logged.say_apply] at hrun
  unfold Env.answerError at herr
  cases hanswer : env.nonStreaming with
  | error e =>
      simp only [hanswer, Logged.pure_apply] at hrun herr
      subst hrun
      cases herr
      exact ⟨_, _, _, (hsend.concat (.since _) trivial).concat (.now _) trivial,
        answers_run hreq _ _ _ _ _ _ _⟩
  | ok result =>
      simp only [hanswer, Env.readContext_bind] at hrun herr
      obtain ⟨c, hc, rfl⟩ := Option.map_eq_some_iff.mp herr
      unfold Env.answerContext at hc
      simp only [hc, Logged.pure_apply] at hrun
      subst hrun
      have hread := hsend.concat (.contextErr (some c)) trivial
      exact ⟨_, _, _, (hread.concat (.since _) trivial).concat (.now _) trivial,
        answers_run hreq _ _ _ _ _ _ _⟩

/-- What is reported of a committed outcome is the verdict of its error. -/
theorem reports_iff (hreq : request.Traceable) (haccepts : env.Accepts request) {err : GoError}
    (herr : env.answerError request = some err)
    (hcommitted : outcomes (env.dispatchNonStreamingWithLedger request none []).2 ≠ [])
    {verdict : Verdict} :
    Reports (env.dispatchNonStreamingWithLedger request none []).2 verdict ↔
      jsonVerdict err = verdict := by
  obtain ⟨log, occurredAt, latency, hlog, hanswer⟩ := callAgent_answers hreq haccepts herr
  generalize (env.dispatchNonStreamingWithLedger request none []).2 = out at hcommitted hanswer ⊢
  cases hanswer with
  | unknown _ =>
      refine absurd ?_ hcommitted
      rw [outcomes_concat, hlog.outcomes]
      rfl
  | @attempted event committed hcode hevent _ =>
      cases committed with
      | false =>
          refine absurd ?_ hcommitted
          rw [outcomes_concat, outcomes_concat, hlog.outcomes]
          rfl
      | true =>
          have hterminal : isRuntimeTerminalStatus event.status = true := by
            rw [hevent]
            generalize hfst : jsonVerdict err = v
            unfold jsonVerdict at hfst
            subst hfst
            generalize dispatchErrorCode err = code
            cases code <;> rfl
          have houtcomes : outcomes (log ++ [.append true event true]
              ++ [.respond (correlatedResponse request (jsonVerdict err).2.2)]) = [event] := by
            rw [outcomes_concat, outcomes_concat, hlog.outcomes]
            simp [Interaction.committed?, hterminal]
          rw [if_pos rfl]
          constructor
          · intro h
            obtain ⟨htype, hstatus, herror⟩ := h.recorded event (by rw [houtcomes]; simp)
            rw [hevent] at htype hstatus herror
            exact Prod.ext htype (Prod.ext hstatus (Option.some.inj herror))
          · rintro rfl
            refine ⟨fun e he => ?_, fun response hmem => ?_⟩
            · rw [houtcomes] at he
              rw [List.mem_singleton.mp he, hevent]
              exact ⟨rfl, rfl, rfl⟩
            · have hresponse : response = correlatedResponse request (jsonVerdict err).2.2 := by
                simpa [hlog.silent response] using hmem
              rw [hresponse, correlatedResponse_eq hreq hcode]
              rfl

/-- **Cancellation and deadline on the two paths.** The outcome of an
accepted JSON dispatch is reported as a cancellation or a deadline, and
as the streaming path would report it, exactly when its error is
settled. -/
theorem nonStreaming_uniform_iff [Semver] (hvalidated : request.Validated)
    (haccepts : env.Accepts request) {err : GoError} (herr : env.answerError request = some err)
    (hcommitted : outcomes (env.dispatchNonStreamingWithLedger request none []).2 ≠ []) :
    Uniform (env.dispatchNonStreamingWithLedger request none []).2 (env.answerContext request) err ↔
      Settled (env.answerContext request) err := by
  have hreports := @reports_iff env request hvalidated.traceable haccepts err herr hcommitted
  generalize (env.dispatchNonStreamingWithLedger request none []).2 = log at hreports ⊢
  generalize env.answerContext request = context
  have hverdict : ∀ code, Reports log (streamVerdict code) ↔ dispatchErrorCode err = code :=
    fun code => hreports.trans jsonVerdict_eq_iff
  constructor
  · intro h
    have hstreaming := fun hdone => (hverdict _).mp
      (h.streaming hdone (Env.standing context) [] rfl rfl)
    simp only [@streamErrorCode_eq (Env.standing context) [] context rfl rfl] at hstreaming
    refine ⟨fun hcanceled => ?_, fun hdeadline => ?_⟩
    · have hcode := (hverdict .canceled).mp (h.canceled hcanceled)
      obtain ⟨hown, hlive⟩ := dispatchErrorCode_canceled_iff.mp hcode
      obtain ⟨hcomplete, hcontext, -⟩ := (streamCode_canceled_iff hcanceled).mp
        ((hstreaming (.inl hcanceled)).symm.trans hcode)
      exact ⟨hown, hlive, hcomplete, hcontext⟩
    · have hcode := dispatchErrorCode_deadline hdeadline
      refine ⟨?_, (streamCode_deadline_iff hdeadline).mp
        ((hstreaming (.inr hdeadline)).symm.trans hcode)⟩
      by_contra hcanceled
      have := (hverdict .canceled).mp (h.canceled (by simpa using hcanceled))
      rw [hcode] at this
      exact absurd this (by simp)
  · intro h
    have hcanceled : err.is .canceled = true → dispatchErrorCode err = .canceled := fun hc =>
      dispatchErrorCode_canceled_iff.mpr ⟨(h.canceled hc).1, (h.canceled hc).2.1⟩
    refine ⟨fun hc => (hverdict .canceled).mpr (hcanceled hc),
      fun hd => (hverdict .timeout).mpr (dispatchErrorCode_deadline hd), ?_⟩
    intro hdone env' log' hread hread'
    rw [streamErrorCode_eq hread hread', hverdict]
    rcases hdone with hc | hd
    · obtain ⟨-, hlive, hcomplete, hcontext⟩ := h.canceled hc
      rw [hcanceled hc, (streamCode_canceled_iff hc).mpr ⟨hcomplete, hcontext, hlive⟩]
    · rw [dispatchErrorCode_deadline hd, (streamCode_deadline_iff hd).mpr (h.deadline hd).2]

end Runs

/-! ## The errors of the client -/

/-- A transport that reports a classified cancellation. -/
def Env.interrupting : Env :=
  { Env.calm [] with nonStreaming := .error (classify .canceled (.sentinel .canceled)) }

theorem nonStreaming_uniform_interrupting :
    letI := Semver.only ["1.0.0"]
    sampleRequest.Validated ∧ Env.interrupting.Accepts sampleRequest
      ∧ Uniform (Env.interrupting.dispatchNonStreamingWithLedger sampleRequest none []).2 none
        (classify .canceled (.sentinel .canceled)) := by
  let _ := Semver.only ["1.0.0"]
  have hvalidated : sampleRequest.Validated := .inl (by decide +kernel)
  have haccepts : Env.interrupting.Accepts sampleRequest := by
    show (Env.interrupting.opening sampleRequest).1 = true
    decide +kernel
  refine ⟨hvalidated, haccepts, (nonStreaming_uniform_iff hvalidated haccepts rfl
    (by decide +kernel)).mpr ⟨fun _ => ⟨rfl, rfl, rfl, ?_⟩, fun h => absurd h (by decide)⟩⟩
  show (none : Option ContextError) ≠ _
  simp

/-- The client goes away while the agent answers. -/
def Env.abandoned : Env :=
  { Env.calm [] with
    contextErr := fun log => if log.any Interaction.isSend then some .canceled else none
    done := by
      intro log x e h
      split_ifs at h with hsend
      rw [if_pos (by rw [List.any_append, hsend, Bool.true_or])]
      exact h }

/-- The result that arrives after a cancellation is recorded and answered
as a failed dependency. -/
theorem abandoned_not_uniform :
    letI := Semver.only ["1.0.0"]
    sampleRequest.Validated ∧ Env.abandoned.Accepts sampleRequest
      ∧ Env.abandoned.answerContext sampleRequest = some .canceled
      ∧ outcomes (Env.abandoned.dispatchNonStreamingWithLedger sampleRequest none []).2 ≠ []
      ∧ ¬Uniform (Env.abandoned.dispatchNonStreamingWithLedger sampleRequest none []).2
        (some .canceled) (.sentinel .canceled) := by
  let _ := Semver.only ["1.0.0"]
  generalize hlog : (Env.abandoned.dispatchNonStreamingWithLedger sampleRequest none []).2 = log
  have hfacts : outcomes log ≠ [] ∧ ∀ e ∈ outcomes log, e.type ≠ .canceled := by
    rw [← hlog]
    decide +kernel
  refine ⟨.inl (by decide +kernel), ?_, by decide +kernel, hfacts.1, fun h => ?_⟩
  · show (Env.abandoned.opening sampleRequest).1 = true
    decide +kernel
  · obtain ⟨e, he⟩ := List.exists_mem_of_ne_nil _ hfacts.1
    exact hfacts.2 e he ((h.canceled rfl).recorded e he).1

end Dispatch

end Nekiro
