import Nekiro.DispatchRuns

/-!
# The protocol of a dispatch

The relations for whole dispatches, built from those of `DispatchRuns`.
`Relay n log out` says how a stream goes on of which `n` chunks are in
the ledger: with the next chunk, or to an end. `JsonRun` and `StreamRun`
are the runs of the two handlers, from the first reading of the clock to
the last thing said.
-/

namespace Nekiro

namespace Dispatch

open Guard

section Relay

variable (env : Env) (request : DispatchInvocationRequestV1) (startedAt : Time)

/-! ## The stream -/

/-- The codes a stream fails with by itself: those of Platform Error v4
and those the agent's own errors carry. -/
def Env.Raises (code : PlatformErrorCode) : Prop :=
  code.known = true ∨ ∃ err, .error err ∈ env.stream ∧ code = streamCode none err

/-- The frame of chunk `n`. -/
def chunkFrame (n : Nat) (payload : Json.Bytes) : InvocationResultStreamEventV2 :=
  chunkEvent request (n + 1) n payload

/-- The ledger's event of chunk `n`. -/
def chunkEntry (n : Nat) (payload : Json.Bytes) : InvocationEventV03 :=
  Env.chunkLedgerEvent request startedAt (n + 3) n payload

def completedFrame (n : Nat) : InvocationResultStreamEventV2 :=
  resultStreamEvent request (n + 1) .completed .succeeded

def succeededEvent (sequence : Int) (since now : Time) : InvocationEventV03 :=
  { lifecycleEvent request sequence .succeeded .succeeded (Env.occurredAt startedAt sequence now)
    with latencyMS := some (Env.millisecondsSince startedAt since) }

/-- The code shown for an outcome the agent reported. The validator
refuses a type that is not the code's own, after it was committed. -/
def shownCode (outcome : ResultStreamEventType × InvocationStatus) (code : PlatformErrorCode)
    (committed : Bool) : PlatformErrorCode :=
  if committed then if outcome = streamFailureType code then code else .a2aProtocol
  else .dependency

inductive Relay : Nat → Log → Log → Prop where
  /-- The stream fails between chunks. -/
  | fails {n : Nat} {log log1 out : Log} {code : PlatformErrorCode} (hquiet : Quiets log log1)
      (hcode : env.Raises code) (hclose : Closes env request startedAt n code log1 out) :
      Relay n log out
  /-- The ledger refuses a chunk, and the context is done. -/
  | refused {n : Nat} {log log1 out : Log} {event : StreamEvent} {code : PlatformErrorCode}
      (hevent : env.stream[n]? = some (.ok event))
      (happend : env.append log false (chunkEntry request startedAt n event.payload) = false)
      (hquiet : Quiets
        (log ++ [.append false (chunkEntry request startedAt n event.payload) false]) log1)
      (hcode : code.known = true) (hclose : Closes env request startedAt n code log1 out) :
      Relay n log out
  /-- The ledger refuses a chunk, and the context was not done. -/
  | failedLedger {n : Nat} {log log1 out : Log} {event : StreamEvent}
      (hevent : env.stream[n]? = some (.ok event))
      (happend : env.append log false (chunkEntry request startedAt n event.payload) = false)
      (hlive : env.contextErr log = none)
      (hquiet : Quiets
        (log ++ [.append false (chunkEntry request startedAt n event.payload) false]) log1)
      (hshow : Shows env (terminalFrame request n .dependency) log1 out) :
      Relay n log out
  /-- The writer refuses the frame of a committed chunk. -/
  | tooLarge {n : Nat} {log log1 out : Log} {event : StreamEvent} {err : GoError}
      {code : PlatformErrorCode} (hevent : env.stream[n]? = some (.ok event))
      (hvalid : validateInvocationResultStreamEventV2 (chunkFrame request n event.payload) = .ok ())
      (happend : env.append log false (chunkEntry request startedAt n event.payload) = true)
      (hencode : env.openWriter.encode (chunkFrame request n event.payload) = .error err)
      (hquiet : Quiets
        (log ++ [.append false (chunkEntry request startedAt n event.payload) true]
          ++ [.refused (chunkFrame request n event.payload)]) log1)
      (hcode : code.known = true) (hclose : Closes env request startedAt (n + 1) code log1 out) :
      Relay n log out
  /-- The client does not get the frame of a committed chunk. -/
  | broken {n : Nat} {log log1 out : Log} {event : StreamEvent} {bytes : Json.Bytes}
      {failure : GoError} {code : PlatformErrorCode} (hevent : env.stream[n]? = some (.ok event))
      (hvalid : validateInvocationResultStreamEventV2 (chunkFrame request n event.payload) = .ok ())
      (happend : env.append log false (chunkEntry request startedAt n event.payload) = true)
      (hencode : env.openWriter.encode (chunkFrame request n event.payload) = .ok bytes)
      (hwrite : env.write
        (log ++ [.append false (chunkEntry request startedAt n event.payload) true])
        bytes = some failure)
      (hquiet : Quiets
        (log ++ [.append false (chunkEntry request startedAt n event.payload) true]
          ++ [.frame (chunkFrame request n event.payload) bytes (some failure)]) log1)
      (hcode : code.known = true) (hclose : Closes env request startedAt (n + 1) code log1 out) :
      Relay n log out
  | delivered {n : Nat} {log out : Log} {event : StreamEvent} {bytes : Json.Bytes}
      (hevent : env.stream[n]? = some (.ok event))
      (hvalid : validateInvocationResultStreamEventV2 (chunkFrame request n event.payload) = .ok ())
      (happend : env.append log false (chunkEntry request startedAt n event.payload) = true)
      (hencode : env.openWriter.encode (chunkFrame request n event.payload) = .ok bytes)
      (hwrite : env.write
        (log ++ [.append false (chunkEntry request startedAt n event.payload) true])
        bytes = none)
      (hnext : Relay (n + 1)
        (log ++ [.append false (chunkEntry request startedAt n event.payload) true]
          ++ [.frame (chunkFrame request n event.payload) bytes none]) out) :
      Relay n log out
  /-- The agent completed. -/
  | completes {n : Nat} {log log1 out : Log} {t t' : Time} {entry : InvocationEventV03}
      {committed : Bool} (hquiet : Quiets log log1)
      (hentry : entry = succeededEvent request startedAt (n + 3) t t')
      (happend : env.append (log1 ++ [.now t'] ++ [.since t]) true entry = committed)
      (hshow : Shows env
        (if committed then completedFrame request n else terminalFrame request n .dependency)
        (log1 ++ [.now t'] ++ [.since t] ++ [.append true entry committed]) out) :
      Relay n log out
  /-- The agent reported another outcome. -/
  | reports {n : Nat} {log log1 out : Log} {t t' : Time} {event : StreamEvent}
      {entry : InvocationEventV03} {committed : Bool}
      {outcome : ResultStreamEventType × InvocationStatus} (hquiet : Quiets log log1)
      (hevent : .ok event ∈ env.stream) (hlast : event.terminalType ≠ .other "")
      (hcode : event.errorCode.known = true)
      (houtcome : outcome = streamTerminalType event.terminalType event.terminalStatus)
      (hother : outcome.1 ≠ .completed)
      (hentry : entry = terminalEntry request startedAt n outcome event.errorCode t t')
      (happend : env.append (log1 ++ [.since t] ++ [.now t']) true entry = committed)
      (hshow : Shows env (terminalFrame request n (shownCode outcome event.errorCode committed))
        (log1 ++ [.since t] ++ [.now t'] ++ [.append true entry committed]) out) :
      Relay n log out
  /-- The agent reported an outcome with a code of its own. -/
  | unreportable {n : Nat} {log log1 out : Log} {event : StreamEvent} (hquiet : Quiets log log1)
      (hevent : .ok event ∈ env.stream) (hlast : event.terminalType ≠ .other "")
      (hcode : event.errorCode.known = false)
      (hother : (streamTerminalType event.terminalType event.terminalStatus).1 ≠ .completed)
      (hcode' : event.errorCode ≠ .other "")
      (hshow : Shows env (terminalFrame request n .internal) log1 out) :
      Relay n log out

end Relay

/-! ### The handler's stream -/

section RelayRun

variable {env : Env} {request : DispatchInvocationRequestV1} {startedAt : Time}

theorem streamTerminalType_cases (eventType : ResultStreamEventType) (status : InvocationStatus) :
    streamTerminalType eventType status ∈
      [(.completed, .succeeded), (.failed, .failed), (.canceled, .canceled),
        (.timedOut, .timedOut)] := by
  unfold streamTerminalType
  split
  case h_4 =>
    split_ifs with h
    · simp [h]
    · simp
  all_goals simp

variable {n : Nat} {outcome : ResultStreamEventType × InvocationStatus} {code : PlatformErrorCode}

/-- The validator accepts a reported outcome whose type is its code's. -/
theorem outcome_of_accept {v : RuntimeResultStreamSequenceValidator}
    (houtcome : outcome ∈ [(.completed, .succeeded), (.failed, .failed), (.canceled, .canceled),
      (.timedOut, .timedOut)])
    (haccept : (streamState request n).accept (failureEvent request (n + 1) outcome code) = .ok v) :
    outcome = streamFailureType code := by
  obtain ⟨hvalid, -, -⟩ := RuntimeResultStreamSequenceValidator.accept_ok_iff.mp haccept
  have hshape := (validateInvocationResultStreamEventV2_ok_iff.mp hvalid).1.shape
  simp only [List.mem_cons, List.not_mem_nil, or_false] at houtcome
  rcases houtcome with rfl | rfl | rfl | rfl <;> cases code <;> first | rfl | exact nomatch hshape

/-- An outcome the validator refuses is shown as a protocol error. -/
theorem rejected_run (hreq : request.Traceable)
    (houtcome : outcome ∈ [(.completed, .succeeded), (.failed, .failed), (.canceled, .canceled),
      (.timedOut, .timedOut)]) (hother : outcome ≠ streamFailureType code) (log : Log) :
    Shows env (terminalFrame request n .a2aProtocol) log
      (env.showTerminal env.openWriter (streamState request n)
        (failureEvent request (n + 1) outcome code)
        (env.finishStreamingFailureWithoutLedger env.openWriter (streamState request n) request
          (n + 1) .a2aProtocol) log).2 := by
  unfold Env.showTerminal
  cases haccept : (streamState request n).accept (failureEvent request (n + 1) outcome code) with
  | ok v => exact absurd (outcome_of_accept houtcome haccept) hother
  | error err => exact reports_run hreq n rfl log

theorem reportTerminal_run (hreq : request.Traceable) (n : Nat) {event : StreamEvent}
    (hevent : .ok event ∈ env.stream) (hlast : event.terminalType ≠ .other "") (log : Log) :
    Relay env request startedAt n log
      (env.reportTerminal env.openWriter (streamState request n) request startedAt (n + 1) (n + 3)
        event log).2 := by
  have hread : Quiets log (log ++ [.contextErr (env.contextErr log)]) :=
    (Quiets.refl log).concat trivial
  simp only [Env.reportTerminal, Env.readContext_bind]
  cases hctx : env.contextErr log with
  | some c =>
      rw [hctx] at hread
      obtain ⟨hq, -⟩ := env.streamErrorCode_run c.err (log ++ [.contextErr (some c)])
      exact .fails (hread.trans hq) (.inl (env.streamErrorCode_context c _))
        (closes_run hreq n _ _)
  | none =>
      rw [hctx] at hread
      have hcases := streamTerminalType_cases event.terminalType event.terminalStatus
      generalize houtcome : streamTerminalType event.terminalType event.terminalStatus = outcome
        at hcases ⊢
      simp only
      by_cases hcompleted : outcome.1 = .completed
      · have hpair : outcome = (.completed, .succeeded) := by
          rcases List.mem_cons.mp hcases with h | h
          · exact h
          · simp only [List.mem_cons, List.not_mem_nil, or_false] at h
            rcases h with rfl | rfl | rfl <;> exact nomatch hcompleted
        subst hpair
        simp only [if_true, Env.terminalOccurredAt_bind, Env.sinceMS_bind, Env.appendEvent_bind,
          Logged.ite_apply]
        generalize hcommitted : env.append _ true _ = committed
        refine .completes hread rfl hcommitted ?_
        cases committed with
        | true => exact shows_run (accept_completed hreq n) _ _
        | false => exact reports_run hreq n rfl _
      · rw [if_neg hcompleted]
        by_cases hempty : event.errorCode = .other ""
        · rw [if_pos hempty]
          exact .fails hread (.inl rfl) (closes_run hreq n _ _)
        rw [if_neg hempty]
        cases hcode : event.errorCode.known with
        | false =>
            obtain ⟨err, herr⟩ := streamFailureEvent_unknown hcode request (n + 1)
              outcome.1 outcome.2
            rw [herr]
            exact .unreportable hread hevent hlast hcode (by rwa [houtcome]) hempty
              (reports_run hreq n rfl _)
        | true =>
            rw [streamFailureEvent_eq hreq hcode]
            simp only [Env.appendStreamingTerminal, Env.appendTerminal, Env.sinceMS_bind,
              Logged.bind_bind, Env.terminalOccurredAt_bind, terminalLifecycleEvent_eq hreq hcode,
              Env.appendEvent_bind, Logged.ite_apply]
            generalize hcommitted : env.append _ true _ = committed
            refine .reports hread hevent hlast hcode houtcome.symm hcompleted rfl hcommitted ?_
            cases committed with
            | false => exact reports_run hreq n rfl _
            | true =>
                by_cases hown : outcome = streamFailureType event.errorCode
                · simp only [shownCode, hown, if_true]
                  exact shows_run (accept_terminalFrame hreq n hcode) _ _
                · simp only [shownCode, hown, if_true, if_false]
                  exact rejected_run hreq hcases hown _

theorem accept_chunkFrame {payload : Json.Bytes}
    (hvalid : validateInvocationResultStreamEventV2 (chunkFrame request n payload) = .ok ()) :
    (streamState request n).accept (chunkFrame request n payload)
      = .ok (streamState request (n + 1)) :=
  accept_streamState hvalid ⟨rfl, rfl, rfl⟩ rfl nofun fun _ => rfl

/-- The stream ends, or the agent reports an error. -/
theorem relay_fails (hreq : request.Traceable) (n : Nat) (log : Log) {err : GoError}
    (herr : .error err ∈ env.stream ∨ ∃ c : ContextError, err = c.err) {log1 : Log}
    (hquiet : Quiets log log1) :
    Relay env request startedAt n log
      ((env.streamErrorCode err >>= fun code => env.finishStreamingFailure env.openWriter
        (streamState request n) request startedAt (n + 1) (n + 3) code) log1).2 := by
  obtain ⟨hq, hcode⟩ := env.streamErrorCode_run err log1
  refine .fails (hquiet.trans hq) ?_ (closes_run hreq n _ _)
  rcases herr with hmem | ⟨c, rfl⟩
  · exact hcode.imp id fun h => ⟨err, hmem, h⟩
  · exact .inl (env.streamErrorCode_context c log1)

/-- **The loop refines the protocol.** -/
theorem relay_run (hreq : request.Traceable) {rest : List (Except GoError StreamEvent)}
    (hrest : rest = env.stream.drop n) (log : Log) :
    Relay env request startedAt n log
      (env.relay request startedAt env.openWriter (streamState request n) (n + 1) n (n + 3) rest
        log).2 := by
  induction rest generalizing n log with
  | nil =>
      have hread : Quiets log (log ++ [.contextErr (env.contextErr log)]) :=
        (Quiets.refl log).concat trivial
      simp only [Env.relay, Env.readContext_bind]
      cases hctx : env.contextErr log with
      | none =>
          rw [hctx] at hread
          exact .fails hread (.inl rfl) (closes_run hreq n _ _)
      | some c =>
          rw [hctx] at hread
          exact relay_fails hreq n log (.inr ⟨c, rfl⟩) hread
  | cons next rest ih =>
      have hnext : env.stream[n]? = some next := by
        rw [← List.head?_drop, ← hrest, List.head?_cons]
      have hmem : next ∈ env.stream := List.mem_of_getElem? hnext
      cases next with
      | error err => exact relay_fails hreq n log (.inl hmem) (Quiets.refl log)
      | ok event =>
          have htail : rest = env.stream.drop (n + 1) := by
            rw [← List.tail_drop, ← hrest, List.tail_cons]
          have hframe : chunkEvent request (n + 1) n event.payload
              = chunkFrame request n event.payload := rfl
          have hentry : Env.chunkLedgerEvent request startedAt (n + 3) n event.payload
              = chunkEntry request startedAt n event.payload := rfl
          have hsequence : (n : Int) + 1 + 1 = (n + 1 : Nat) + 1 := rfl
          have hledger : (n : Int) + 3 + 1 = (n + 1 : Nat) + 3 := by omega
          rw [Env.relay, hframe, hentry, hsequence, hledger]
          by_cases hpayload : event.payload = [] ∨ Json.valid event.payload = false
          · rw [if_pos hpayload]
            exact .fails (Quiets.refl log) (.inl rfl) (closes_run hreq n _ log)
          rw [if_neg hpayload]
          by_cases hvalid : validateInvocationResultStreamEventV2
              (chunkFrame request n event.payload) = .ok ()
          swap
          · rw [if_pos hvalid]
            exact .fails (Quiets.refl log) (.inl rfl) (closes_run hreq n _ log)
          rw [if_neg (not_not.mpr hvalid), accept_chunkFrame hvalid, Env.appendEvent_bind]
          cases happend : env.append log false (chunkEntry request startedAt n event.payload) with
          | false =>
              -- the refusal is the context's when the context is done, and the ledger's otherwise
              simp only [Bool.false_eq_true, if_false, Logged.bind_apply]
              obtain ⟨hq, ⟨c, hc⟩ | ⟨hnone, hlive⟩⟩ := env.contextTerminal_run
                (log ++ [.append false (chunkEntry request startedAt n event.payload) false])
              · rw [hc]
                exact .refused hnext happend hq c.terminal_known (closes_run hreq n _ _)
              · rw [hnone]
                exact .failedLedger hnext happend (env.contextErr_of_append hlive) hq
                  (reports_run hreq n rfl _)
          | true =>
              simp only [if_true, Logged.bind_apply]
              rcases writeFrame_run env.openWriter (chunkFrame request n event.payload)
                (log ++ [.append false (chunkEntry request startedAt n event.payload) true])
                with ⟨err, hencode, hrun⟩ | ⟨bytes, hencode, hrun⟩
              · obtain ⟨hq, hcode, -⟩ := env.streamWriteErrorCode_run err _
                rw [hrun]
                exact .tooLarge hnext hvalid happend hencode hq hcode (closes_run hreq (n + 1) _ _)
              · rw [hrun]
                cases hwrite : env.write
                    (log ++ [.append false (chunkEntry request startedAt n event.payload) true])
                    bytes with
                | some failure =>
                    obtain ⟨hq, hcode, -⟩ := env.streamWriteErrorCode_run failure _
                    exact .broken hnext hvalid happend hencode hwrite hq hcode
                      (closes_run hreq (n + 1) _ _)
                | none =>
                    refine .delivered hnext hvalid happend hencode hwrite ?_
                    by_cases hlast : event.terminalType = .other ""
                    · simp only [hlast, if_true]
                      exact ih htail _
                    · simp only [hlast, if_false]
                      exact reportTerminal_run hreq (n + 1) hmem hlast _

end RelayRun

/-! ## The initial events -/

section Opens

variable (env : Env) (request : DispatchInvocationRequestV1) (startedAt : Time)

/-- The ledger refused an initial event. -/
inductive Halts (child : Bool) (event : InvocationEventV03) (log : Log) : Log → Prop where
  /-- Nothing was accepted yet, or the context was not done. -/
  | failed {log1 : Log} (hlive : event.sequence ≤ 0 ∨ env.contextErr log = none)
      (hquiet : Quiets (log ++ [.append false event false]) log1) :
      Halts child event log (log1 ++ [.respond
        (if child = true ∧ event.sequence = 0 then preResponse request.traceID .dependency
          else correlatedResponse request .dependency)])
  /-- The context is done: the invocation is closed by its error. -/
  | closed {log1 : Log} {c : ContextError} {t t' : Time} {entry : InvocationEventV03}
      {committed : Bool} (hlater : 0 < event.sequence)
      (hquiet : Quiets (log ++ [.append false event false]) log1)
      (hentry : entry = terminalEvent request event.sequence c.terminal.2.1 c.terminal.2.2
        (Env.occurredAt startedAt event.sequence t') (Env.millisecondsSince startedAt t)
        c.terminal.1)
      (happend : env.append (log1 ++ [.now t'] ++ [.since t]) true entry = committed) :
      Halts child event log (log1 ++ [.now t'] ++ [.since t] ++ [.append true entry committed]
        ++ [.respond
          (correlatedResponse request (if committed then c.terminal.1 else .dependency))])

/-- The initial events go to the ledger one after another. -/
inductive Opens (child : Bool) : List InvocationEventV03 → Log → Bool × Log → Prop where
  | done (log : Log) : Opens child [] log (true, log)
  | commit {event : InvocationEventV03} {events : List InvocationEventV03} {log : Log}
      {result : Bool × Log} (happend : env.append log false event = true)
      (hnext : Opens child events (log ++ [.append false event true]) result) :
      Opens child (event :: events) log result
  | halt {event : InvocationEventV03} {events : List InvocationEventV03} {log out : Log}
      (happend : env.append log false event = false)
      (hhalt : Halts env request startedAt child event log out) :
      Opens child (event :: events) log (false, out)

end Opens

section OpensRun

variable {env : Env} {request : DispatchInvocationRequestV1} {startedAt : Time}

theorem halts_run (hreq : request.Traceable) (child : Bool) (event : InvocationEventV03)
    (log : Log) :
    Halts env request startedAt child event log
      (Env.appendInitialLedgerEventsMode.refuseInitial env request startedAt child event
        (log ++ [.append false event false])).2 := by
  rw [Env.appendInitialLedgerEventsMode.refuseInitial, Logged.bind_apply]
  generalize hclose : Env.appendInitialLedgerEventsMode.closeInitial env request startedAt event
    (log ++ [.append false event false]) = r
  unfold Env.appendInitialLedgerEventsMode.closeInitial at hclose
  by_cases hlater : 0 < event.sequence
  swap
  · rw [if_neg hlater] at hclose
    subst hclose
    exact .failed (.inl (by omega)) (Quiets.refl _)
  rw [if_pos hlater, Logged.bind_apply] at hclose
  obtain ⟨hq, ⟨c, hc⟩ | ⟨hnone, hlive⟩⟩ :=
    env.contextTerminal_run (log ++ [.append false event false])
  · simp only [hc, Env.terminalOccurredAt_bind, Env.sinceMS_bind,
      terminalLifecycleEvent_eq hreq c.terminal_known, Env.appendEvent_bind] at hclose
    generalize hcommitted : env.append _ true _ = committed at hclose
    cases committed with
    | true =>
        subst hclose
        exact .closed hlater hq rfl hcommitted
    | false =>
        have hfirst : ¬(child = true ∧ event.sequence = 0) := by omega
        subst hclose
        rw [if_neg hfirst]
        exact .closed hlater hq rfl hcommitted
  · rw [hnone] at hclose
    subst hclose
    exact .failed (.inr (env.contextErr_of_append hlive)) hq

theorem opens_run (hreq : request.Traceable) (child : Bool) (events : List InvocationEventV03)
    (log : Log) :
    Opens env request startedAt child events log
      (env.appendInitialLedgerEventsMode request startedAt child events log) := by
  induction events generalizing log with
  | nil => exact .done log
  | cons event events ih =>
      rw [Env.appendInitialLedgerEventsMode, Env.appendEvent_bind]
      cases happend : env.append log false event with
      | true => exact .commit happend (ih _)
      | false => exact .halt happend (halts_run hreq child event log)

variable {child : Bool} {events : List InvocationEventV03} {log : Log}

/-- What holds after the initial events, however they end. -/
theorem opens_bind {α : Type} {P : Log → Prop} (hreq : request.Traceable) {f : Bool → Program α}
    (h : ∀ ok log', Opens env request startedAt child events log (ok, log') → P (f ok log').2) :
    P ((env.appendInitialLedgerEventsMode request startedAt child events >>= f) log).2 :=
  h _ _ (opens_run hreq child events log)

/-- The record of initial events that are all committed. -/
theorem Opens.log_eq {log' : Log} (h : Opens env request startedAt child events log (true, log')) :
    log' = log ++ events.map (.append false · true) := by
  generalize hresult : (true, log') = result at h
  induction h with
  | done log =>
      obtain rfl := (Prod.mk.inj hresult).2
      simp
  | commit happend _ ih =>
      rw [ih hresult, List.map_cons, List.append_assoc, List.singleton_append]
  | halt happend hhalt => exact nomatch hresult

/-- A refused event ends the run, whatever was to follow. -/
theorem Opens.append {out : Log} (h : Opens env request startedAt child events log (false, out))
    (more : List InvocationEventV03) :
    Opens env request startedAt child (events ++ more) log (false, out) := by
  generalize hresult : (false, out) = result at h
  induction h with
  | done log => exact nomatch hresult
  | commit happend _ ih => exact .commit happend (ih hresult)
  | halt happend hhalt => exact .halt happend hhalt

end OpensRun

/-! ## Whole dispatches -/

section Runs

variable (env : Env) (request : DispatchInvocationRequestV1)

/-- The events before the agent is called. -/
def initialEvents (startedAt : Time) : List InvocationEventV03 :=
  [Env.createdEvent request startedAt, Env.routingEvent request startedAt,
    Env.startedEvent request startedAt]

def isChild : Bool := request.parentInvocationID != ""

/-- The initial events of a dispatch that begins at this time. -/
abbrev Opened (t : Time) (result : Bool × Log) : Prop :=
  Opens env request t.truncateMicro (isChild request) (initialEvents request t.truncateMicro)
    [.now t] result

/-- The runs of `dispatchNonStreamingWithLedger`. -/
inductive JsonRun (targetErr : Option GoError) : Log → Prop where
  | halted {t : Time} {out : Log} (hopen : Opened env request t (false, out)) :
      JsonRun targetErr out
  /-- No target was found. -/
  | untargeted {t t' : Time} {err : GoError} {log out : Log} (herr : targetErr = some err)
      (hopen : Opens env request t.truncateMicro (isChild request)
        ((initialEvents request t.truncateMicro).take 2) [.now t] (true, log))
      (hanswer : Answers env request 2 .failed .failed (Env.occurredAt t.truncateMicro 2 t') 0
        (dispatchErrorCode err) (log ++ [.now t']) out) :
      JsonRun targetErr out
  /-- The agent, or the context, reported an error. -/
  | failed {t t' t'' : Time} {err : GoError} {log log1 out : Log} (htarget : targetErr = none)
      (hopen : Opened env request t (true, log))
      (hquiet : Quiets (log ++ [.sendNonStreaming]) log1)
      (herr : env.nonStreaming = .error err ∨ ∃ c : ContextError, err = c.err)
      (hanswer : Answers env request 3 (outcomeType (dispatchErrorCode err)).1
        (outcomeType (dispatchErrorCode err)).2 (Env.occurredAt t.truncateMicro 3 t')
        (Env.millisecondsSince t.truncateMicro t'') (dispatchErrorCode err)
        (log1 ++ [.since t''] ++ [.now t']) out) :
      JsonRun targetErr out
  | succeeded {t t' t'' : Time} {result : Json.Bytes} {log log1 : Log}
      {entry : InvocationEventV03} {committed : Bool} (htarget : targetErr = none)
      (hopen : Opened env request t (true, log))
      (hquiet : Quiets (log ++ [.sendNonStreaming]) log1)
      (hresult : env.nonStreaming = .ok result)
      (hentry : entry = succeededEvent request t.truncateMicro 3 t'' t')
      (happend : env.append (log1 ++ [.since t''] ++ [.now t']) true entry = committed) :
      JsonRun targetErr (log1 ++ [.since t''] ++ [.now t'] ++ [.append true entry committed]
        ++ [.respond (if committed then resultResponse request result
          else correlatedResponse request .dependency)])

/-- The runs of `dispatchStreamingWithLedger`. -/
inductive StreamRun : Log → Prop where
  | halted {t : Time} {out : Log} (hopen : Opened env request t (false, out)) :
      StreamRun out
  /-- There is no writer for a stream. -/
  | unsupported {t t' : Time} {log out : Log}
      (hopen : Opened env request t (true, log))
      (hwriter : env.newResultStreamWriter = none)
      (hanswer : Answers env request 3 .failed .failed (Env.occurredAt t.truncateMicro 3 t') 0
        .dependency (log ++ [.now t']) out) :
      StreamRun out
  /-- The writer refuses the first frame. -/
  | unaccepted {t t' : Time} {err : GoError} {code : PlatformErrorCode} {log log1 out : Log}
      (hopen : Opened env request t (true, log))
      (hencode : env.openWriter.encode (acceptedEvent request) = .error err)
      (hquiet : Quiets (log ++ [.refused (acceptedEvent request)]) log1)
      (hcode : code.known = true)
      (hcontext : code = .agentResponseTooLarge ∨ code = .dependency
        ∨ ∃ c, .contextErr (some c) ∈ log1)
      (hanswer : Answers env request 3 .failed .failed (Env.occurredAt t.truncateMicro 3 t') 0
        code (log1 ++ [.now t']) out) :
      StreamRun out
  /-- The client does not get the first frame. -/
  | broken {t : Time} {bytes : Json.Bytes} {failure : GoError} {code : PlatformErrorCode}
      {log log1 out : Log}
      (hopen : Opened env request t (true, log))
      (hencode : env.openWriter.encode (acceptedEvent request) = .ok bytes)
      (hwrite : env.write log bytes = some failure)
      (hquiet : Quiets (log ++ [.frame (acceptedEvent request) bytes (some failure)]) log1)
      (hcode : code.known = true)
      (hclose : Closes env request t.truncateMicro 0 code log1 out) :
      StreamRun out
  | relayed {t : Time} {bytes : Json.Bytes} {log out : Log}
      (hopen : Opened env request t (true, log))
      (hencode : env.openWriter.encode (acceptedEvent request) = .ok bytes)
      (hwrite : env.write log bytes = none)
      (hrelay : Relay env request t.truncateMicro 0
        (log ++ [.frame (acceptedEvent request) bytes none] ++ [.sendStreaming]) out) :
      StreamRun out

end Runs

variable {env : Env} {request : DispatchInvocationRequestV1}

theorem callAgent_run (hreq : request.Traceable) {t : Time} {log : Log}
    (hopen : Opened env request t (true, log)) :
    JsonRun env request none (env.callAgent request t.truncateMicro log).2 := by
  have hsend : Quiets (log ++ [.sendNonStreaming]) (log ++ [.sendNonStreaming]) := Quiets.refl _
  unfold Env.callAgent
  rw [Logged.bind_apply]
  generalize hrun : env.sendNonStreaming log = r
  unfold Env.sendNonStreaming at hrun
  rw [Logged.bind_apply, Logged.say_apply] at hrun
  cases hresult : env.nonStreaming with
  | error err =>
      simp only [hresult, Logged.pure_apply] at hrun
      subst hrun
      exact .failed rfl hopen hsend (.inl hresult) (answers_run hreq _ _ _ _ _ _ _)
  | ok result =>
      simp only [hresult, Env.readContext_bind] at hrun
      cases hctx : env.contextErr (log ++ [.sendNonStreaming]) with
      | some c =>
          simp only [hctx, Logged.pure_apply] at hrun
          subst hrun
          exact .failed rfl hopen (hsend.concat (x := .contextErr (some c)) trivial) (.inr ⟨c, rfl⟩)
            (answers_run hreq _ _ _ _ _ _ _)
      | none =>
          simp only [hctx, Logged.pure_apply] at hrun
          subst hrun
          simp only [Env.sinceMS_bind, Env.terminalOccurredAt_bind, Env.appendEvent_bind]
          generalize hcommitted : env.append _ true _ = committed
          have hrun := JsonRun.succeeded rfl hopen (hsend.concat (x := .contextErr none) trivial)
            hresult rfl hcommitted
          cases committed <;> exact hrun

/-- **The JSON handler refines its protocol.** -/
theorem jsonRun (hreq : request.Traceable) (targetErr : Option GoError) :
    JsonRun env request targetErr (env.dispatchNonStreamingWithLedger request targetErr []).2 := by
  unfold Env.dispatchNonStreamingWithLedger
  rw [Env.startedAt_bind]
  cases targetErr with
  | some err =>
      refine opens_bind (P := JsonRun env request (some err)) hreq fun ok log hopen => ?_
      cases ok with
      | false => exact .halted (hopen.append [Env.startedEvent request (env.now []).truncateMicro])
      | true => exact .untargeted rfl hopen (answers_run hreq _ _ _ _ _ _ _)
  | none =>
      refine opens_bind (P := JsonRun env request none) hreq fun ok log hopen => ?_
      cases ok with
      | false => exact .halted hopen
      | true => exact callAgent_run hreq hopen

theorem accept_acceptedEvent (hreq : request.Traceable) :
    ∃ v, newRuntimeResultStreamSequenceValidator request.invocationID request.rootTaskID
        request.traceID = .ok v
      ∧ v.accept (acceptedEvent request) = .ok (streamState request 0) := by
  refine ⟨⟨request.invocationID, request.rootTaskID, request.traceID, 0, 0, false, false⟩, ?_, ?_⟩
  · simp only [newRuntimeResultStreamSequenceValidator, validateSafeContractIdentifier,
      parseTraceID, check_bind_ok_iff, require_ok_iff, ← safeIdentifier_iff]
    exact ⟨hreq.invocationID, hreq.rootTaskID, hreq.traceID, rfl⟩
  · exact RuntimeResultStreamSequenceValidator.accept_ok_iff.mpr
      ⟨validate_acceptedEvent hreq, ⟨rfl, rfl, ⟨rfl, rfl, rfl⟩, rfl, fun _ => rfl,
        fun h => absurd h (by simp), fun h =>
          absurd h (by simp [acceptedEvent, resultStreamEvent])⟩, rfl⟩

theorem acceptStream_run (hreq : request.Traceable) {t : Time} {log : Log}
    (hopen : Opened env request t (true, log)) :
    StreamRun env request (env.acceptStream request t.truncateMicro log).2 := by
  obtain ⟨v, hnew, haccept⟩ := accept_acceptedEvent hreq
  unfold Env.acceptStream
  rw [hnew]
  cases hwriter : env.newResultStreamWriter with
  | none =>
      have hanswer : (fun _ => respond (correlatedResponse request .dependency) : Bool →
          Program Unit)
          = Env.answerFailure request .dependency := by
        funext committed
        rw [Env.answerFailure, ite_self]
      simp only [hanswer, Env.appendStreamingTerminal, Logged.bind_bind,
        Env.terminalOccurredAt_bind]
      exact .unsupported hopen hwriter (answers_run hreq 3 .failed .failed _ 0 .dependency _)
  | some writer =>
      have hclosed : writer = ⟨env.sseEventLimitBytes, false⟩ := by
        unfold Env.newResultStreamWriter at hwriter
        split_ifs at hwriter
        exact (Option.some.inj hwriter).symm
      subst hclosed
      simp only [haccept, Logged.bind_apply]
      rcases writeFrame_run ⟨env.sseEventLimitBytes, false⟩ (acceptedEvent request) log
        with ⟨err, hencode, hrun⟩ | ⟨bytes, hencode, hrun⟩
      · obtain ⟨hq, hcode, hcontext⟩ := env.streamWriteErrorCode_run err
          (log ++ [.refused (acceptedEvent request)])
        rw [hrun]
        exact .unaccepted hopen hencode hq hcode hcontext (answers_run hreq _ _ _ _ _ _ _)
      · rw [hrun]
        cases hwrite : env.write log bytes with
        | some failure =>
            obtain ⟨hq, hcode, -⟩ := env.streamWriteErrorCode_run failure _
            exact .broken hopen hencode hwrite hq hcode (closes_run hreq 0 _ _)
        | none => exact .relayed hopen hencode hwrite (relay_run hreq rfl _)

/-- **The streaming handler refines its protocol.** -/
theorem streamRun (hreq : request.Traceable) :
    StreamRun env request (env.dispatchStreamingWithLedger request []).2 := by
  unfold Env.dispatchStreamingWithLedger
  rw [Env.startedAt_bind]
  refine opens_bind (P := StreamRun env request) hreq fun ok log hopen => ?_
  cases ok with
  | false => exact .halted hopen
  | true => exact acceptStream_run hreq hopen

end Dispatch

end Nekiro
