import Nekiro.DispatchProtocol

/-!
# The ledger comes first

Whatever a dispatch does in public is in the ledger before: the agent is
called after the initial events, a chunk is shown after its event, and
what the client is told of the outcome is the terminal event of the
ledger, or a failure of the platform when there is none.

The property is a protocol over the record (`allowed`): every entry is
one the entries before it permit. Each relation of a run keeps it
(`closes_lawful`, `relay_lawful`, ...), and `LedgerFirst` is read off the
protocol of a whole run. For what the client is told one thing is asked
of the ledger: it has no event the contract refuses. The rest (`Ordered`)
holds with any ledger.
-/

namespace Nekiro

namespace Dispatch

open Guard Logged

/-! ## What an entry is -/

namespace Interaction

def isSend : Interaction → Bool
  | .sendNonStreaming | .sendStreaming => true
  | _ => false

/-- The entry leaves the invocation open: it is no attempt at a terminal
event, no terminal frame and no response. -/
def Continues : Interaction → Prop
  | .append _ event _ => isRuntimeTerminalStatus event.status = false
  | .frame event _ _ => event.type.isTerminal = false
  | .respond _ => False
  | _ => True

/-- A 200 result body or a `completed` frame. -/
def Succeeds : Interaction → Prop
  | .frame event _ _ => event.type = .completed
  | .respond (.result _ _ _ _) => True
  | _ => False

/-- A terminal frame or an error response. -/
def Tells : Interaction → Prop
  | .frame event _ _ => event.type.isTerminal = true
  | .respond (.result _ _ _ _) => False
  | .respond _ => True
  | _ => False

/-- The error code the client sees. -/
def code? : Interaction → Option PlatformErrorCode
  | .frame event _ _ => event.error.map (·.code)
  | .respond (.correlated _ error) => some error.code
  | .respond (.preCorrelation _ error) => some error.code
  | _ => none

/-- The client sees the type, status and code of the ledger's event. A
response shows the code and its HTTP status. -/
def Matches (x : Interaction) (entry : InvocationEventV03) : Prop :=
  match x with
  | .frame event _ _ =>
      (event.type, entry.type) ∈ [(.completed, .succeeded), (.failed, .failed),
        (.canceled, .canceled), (.timedOut, .timedOut)]
      ∧ event.status = entry.status ∧ event.error.map (·.code) = entry.error.map (·.code)
  | .respond (.correlated status error) =>
      status = errorStatus error.code ∧ entry.error.map (·.code) = some error.code
  | _ => False

end Interaction

/-! ## The protocol -/

/-- The terminal events of the ledger. -/
def outcomes (log : Log) : List InvocationEventV03 :=
  (committed log).filter fun e => isRuntimeTerminalStatus e.status

def Unfinished (log : Log) : Prop := ∀ x ∈ log, x.Continues

section Allowed

variable (request : DispatchInvocationRequestV1)

/-- The ledger has an event of the invocation with a type. -/
def Recorded (log : Log) (type : EventType) : Prop :=
  ∃ e ∈ committed log, e.type = type ∧ e.invocationID = request.invocationID

/-- What the client is told is the ledger's outcome, or a failure of the
platform without one. -/
def Truthful (log : Log) (x : Interaction) : Prop :=
  (∃ e ∈ outcomes log, x.Matches e)
    ∨ outcomes log = [] ∧ (x.code? = some .dependency ∨ x.code? = some .internal)

/-- The entry may follow the record. What the client is told is looked at
where the ledger is `valid`. -/
def allowed (valid : Prop) (log : Log) (x : Interaction) : Prop :=
  match x with
  | .append _ _ _ => Unfinished log
  | .sendNonStreaming | .sendStreaming =>
      (∀ y ∈ log, y.isSend = false) ∧ Recorded request log .created ∧ Recorded request log .routing
        ∧ Recorded request log .started
  | .frame event _ _ =>
      (event.type.isTerminal = true → valid → Truthful log x)
      ∧ (event.type = .completed → Recorded request log .succeeded)
      ∧ (event.type = .chunk → ∃ e ∈ committed log, e.type = .stream
        ∧ e.invocationID = event.invocationID ∧ e.chunkIndex = event.chunkIndex
        ∧ e.chunkBytes = some (event.chunk.length : Int))
  | .respond (.result _ _ _ _) => Recorded request log .succeeded
  | .respond _ => valid → Truthful log x
  | _ => True

/-- The order of a dispatch's record. -/
structure Ordered (log : Log) : Prop where
  calledOnce : (log.filter Interaction.isSend).length ≤ 1
  calledAfter : ∀ pre x post, log = pre ++ x :: post → x.isSend = true →
    Recorded request pre .created ∧ Recorded request pre .routing ∧ Recorded request pre .started
  succeeded : ∀ pre x post, log = pre ++ x :: post → x.Succeeds → Recorded request pre .succeeded
  chunk : ∀ pre event bytes failure post, log = pre ++ .frame event bytes failure :: post →
    event.type = .chunk → ∃ e ∈ committed pre, e.type = .stream
      ∧ e.invocationID = event.invocationID ∧ e.chunkIndex = event.chunkIndex
      ∧ e.chunkBytes = some (event.chunk.length : Int)
  /-- After an attempt at a terminal event, a terminal frame or a
  response, nothing is appended any more. -/
  terminalLast : ∀ pre x post, log = pre ++ x :: post → ¬x.Continues →
    ∀ grace event ok, .append grace event ok ∉ post

/-- In order, and the client is told the outcome of the ledger. -/
structure LedgerFirst (log : Log) : Prop extends Ordered request log where
  outcome : ∀ pre x post, log = pre ++ x :: post → x.Tells → Recorded request pre .created →
    Truthful log x

end Allowed

/-! ## From the protocol to the properties -/

section Read

variable {request : DispatchInvocationRequestV1} {valid : Prop} {log pre post : Log}
  {x : Interaction}

section Lawful

variable (h : Lawful (allowed request valid) log)

include h

theorem no_append_after (hsplit : log = pre ++ x :: post) (hx : ¬x.Continues) (grace : Bool)
    (event : InvocationEventV03) (ok : Bool) :
    .append grace event ok ∉ post := by
  intro hmem
  obtain ⟨mid, rest, rfl⟩ := List.append_of_mem hmem
  have hopen : Unfinished (pre ++ x :: mid) := h (pre ++ x :: mid) (.append grace event ok) rest
    (by rw [hsplit]; simp)
  exact hx (hopen x (by simp))

/-- Nothing enters the ledger after the client was told. -/
theorem committed_of_tells (hsplit : log = pre ++ x :: post) (hx : x.Tells) :
    committed log = committed pre := by
  have hfinal : ¬x.Continues := by
    cases x <;> simp_all [Interaction.Tells, Interaction.Continues]
  have hnone : x.committed? = none := by
    cases x <;> first | rfl | exact hx.elim
  have hpost : committed post = [] := by
    refine List.filterMap_eq_nil_iff.mpr fun y hy => ?_
    cases y with
    | append grace event ok => exact absurd hy (no_append_after h hsplit hfinal grace event ok)
    | _ => rfl
  rw [hsplit, committed_append]
  simp only [committed, List.filterMap_cons, hnone]
  exact (congrArg _ hpost).trans (List.append_nil _)

theorem calls_le_one :
    (log.filter Interaction.isSend).length ≤ 1 := by
  induction log using List.reverseRecOn with
  | nil => exact Nat.zero_le 1
  | append_singleton log x ih =>
      obtain ⟨hlog, hx⟩ := lawful_concat.mp h
      rw [List.filter_append, List.length_append]
      cases hsend : x.isSend with
      | false => simpa [hsend] using ih hlog
      | true =>
          have hnone : ∀ y ∈ log, y.isSend = false := by
            cases x <;> first | exact hx.1 | exact nomatch hsend
          rw [List.filter_eq_nil_iff.mpr fun y hy => by simp [hnone y hy]]
          simp [hsend]

theorem Ordered.of_lawful : Ordered request log where
  calledOnce := calls_le_one h
  calledAfter := by
    intro pre x post hsplit hsend
    have hx := h pre x post hsplit
    cases x <;> first | exact hx.2 | exact nomatch hsend
  succeeded := by
    intro pre x post hsplit hsucceeds
    have hx := h pre x post hsplit
    cases x with
    | frame event bytes failure => exact hx.2.1 hsucceeds
    | respond response =>
        cases response <;> first | exact hx | exact hsucceeds.elim
    | _ => exact hsucceeds.elim
  chunk := fun pre event bytes failure post hsplit => (h pre _ post hsplit).2.2
  terminalLast := fun _ _ _ hsplit hx => no_append_after h hsplit hx

theorem LedgerFirst.of_lawful (hvalid : valid) :
    LedgerFirst request log where
  toOrdered := .of_lawful h
  outcome := by
    intro pre x post hsplit htells _
    have hx := h pre x post hsplit
    have htruth : Truthful pre x := by
      cases x with
      | frame event bytes failure => exact hx.1 htells hvalid
      | respond response =>
          cases response <;> first | exact htells.elim | exact hx hvalid
      | _ => exact htells.elim
    unfold Truthful outcomes at htruth ⊢
    rwa [committed_of_tells h hsplit htells]

end Lawful

end Read

/-! ## Runs keep the protocol -/

section Steps

variable {env : Env} {request : DispatchInvocationRequestV1} {valid : Prop} {startedAt : Time}
  {log out : Log}

/-- The record of an invocation that is still open. -/
structure InProgress (request : DispatchInvocationRequestV1) (valid : Prop) (log : Log) : Prop where
  lawful : Lawful (allowed request valid) log
  unfinished : Unfinished log

section InProgress

variable (h : InProgress request valid log)

include h

theorem InProgress.concat {x : Interaction} (hx : allowed request valid log x)
    (hcontinues : x.Continues) : InProgress request valid (log ++ [x]) where
  lawful := lawful_concat.mpr ⟨h.lawful, hx⟩
  unfinished := List.forall_mem_append.mpr ⟨h.unfinished, by simpa using hcontinues⟩

theorem InProgress.quiets {log' : Log} (hquiet : Quiets log log') :
    InProgress request valid log' :=
  hquiet.induction h fun _ x hl hx => hl.concat (by cases x <;> trivial) (by cases x <;> trivial)

theorem InProgress.since_now (t t' : Time) :
    InProgress request valid (log ++ [.since t] ++ [.now t']) :=
  (h.concat (x := .since t) trivial trivial).concat (x := .now t') trivial trivial

theorem InProgress.now_since (t t' : Time) :
    InProgress request valid (log ++ [.now t'] ++ [.since t]) :=
  (h.concat (x := .now t') trivial trivial).concat (x := .since t) trivial trivial

theorem InProgress.refused (event : InvocationResultStreamEventV2) :
    InProgress request valid (log ++ [.refused event]) :=
  h.concat trivial trivial

theorem InProgress.no_outcome : outcomes log = [] := by
  refine List.filter_eq_nil_iff.mpr fun e he => ?_
  obtain ⟨x, hx, hxe⟩ := List.mem_filterMap.mp he
  have hcontinues := h.unfinished x hx
  unfold Interaction.committed? at hxe
  split at hxe
  · cases hxe
    simpa [Interaction.Continues] using hcontinues
  · exact nomatch hxe

end InProgress

variable {event : InvocationEventV03} {code : PlatformErrorCode} {n : Nat} {child : Bool}
  {events : List InvocationEventV03}

/-- The attempt at a terminal event, and what the ledger has then. -/
theorem InProgress.attempt (h : InProgress request valid log)
    (hterminal : isRuntimeTerminalStatus event.status = true) (grace committed : Bool) :
    Lawful (allowed request valid) (log ++ [.append grace event committed])
      ∧ outcomes (log ++ [.append grace event committed]) = if committed then [event] else [] := by
  refine ⟨lawful_concat.mpr ⟨h.lawful, h.unfinished⟩, ?_⟩
  have hlog := h.no_outcome
  unfold outcomes at hlog ⊢
  rw [committed_concat, List.filter_append, hlog]
  cases committed <;> simp [Interaction.committed?, hterminal]

theorem allowed_correlatedResponse (hreq : request.Traceable) (hcode : code.known = true)
    {committed : Bool} (hevent : event.error.map (·.code) = some code)
    (houtcomes : outcomes log = if committed then [event] else []) :
    allowed request valid log
      (.respond (correlatedResponse request (if committed then code else .dependency))) := by
  cases committed with
  | true =>
      rw [if_pos rfl, correlatedResponse_eq hreq hcode]
      exact fun _ => .inl ⟨event, by rw [houtcomes]; exact List.mem_singleton_self event,
        rfl, hevent⟩
  | false =>
      rw [if_neg Bool.false_ne_true, correlatedResponse_eq hreq rfl]
      exact fun _ => .inr ⟨houtcomes, .inl rfl⟩

/-- The client hears of a failure of the platform while the invocation
is open. -/
theorem InProgress.respond_dependency (hreq : request.Traceable)
    (h : InProgress request valid log) :
    allowed request valid log (.respond (correlatedResponse request .dependency)) := by
  rw [correlatedResponse_eq hreq rfl]
  exact fun _ => .inr ⟨h.no_outcome, .inl rfl⟩

theorem answers_lawful (hreq : request.Traceable) (h : InProgress request valid log)
    {sequence : Int}
    {eventType : EventType} {status : InvocationStatus} {occurredAt : Time} {latency : Int}
    (hterminal : isRuntimeTerminalStatus status = true)
    (hanswer : Answers env request sequence eventType status occurredAt latency code log out) :
    Lawful (allowed request valid) out := by
  cases hanswer with
  | unknown hcode => exact lawful_concat.mpr ⟨h.lawful, h.respond_dependency hreq⟩
  | @attempted event committed hcode hevent happend =>
      have hstatus : isRuntimeTerminalStatus event.status = true := by
        rw [hevent]
        exact hterminal
      obtain ⟨hlawful, houtcomes⟩ := h.attempt hstatus true committed
      refine lawful_concat.mpr ⟨hlawful, allowed_correlatedResponse hreq hcode ?_ houtcomes⟩
      rw [hevent]
      rfl

/-- A terminal frame is shown when it may follow the record. -/
theorem shows_lawful {event : InvocationResultStreamEventV2}
    (h : Lawful (allowed request valid) log)
    (hevent : ∀ bytes failure, allowed request valid log (.frame event bytes failure))
    (hshow : Shows env event log out) : Lawful (allowed request valid) out := by
  cases hshow with
  | refused => exact lawful_concat.mpr ⟨lawful_concat.mpr ⟨h, trivial⟩, trivial⟩
  | broken => exact lawful_concat.mpr ⟨lawful_concat.mpr ⟨h, hevent _ _⟩, trivial⟩
  | shown => exact lawful_concat.mpr ⟨h, hevent _ _⟩

theorem streamFailureType_ne (code : PlatformErrorCode) :
    (streamFailureType code).1 ≠ .completed ∧ (streamFailureType code).1 ≠ .chunk := by
  cases code <;> exact ⟨nofun, nofun⟩

/-- A failure frame may follow a record with its own outcome. -/
theorem allowed_terminalFrame
    (h : valid → (∃ e ∈ outcomes log, e.type = (streamFailureType code).1.eventType
        ∧ e.status = (streamFailureType code).2 ∧ e.error.map (·.code) = some code)
      ∨ outcomes log = [] ∧ (code = .dependency ∨ code = .internal)) (bytes : Json.Bytes)
    (failure : Option GoError) :
    allowed request valid log (.frame (terminalFrame request n code) bytes failure) := by
  refine ⟨fun _ hvalid => ?_, fun htype => absurd htype (streamFailureType_ne code).1,
    fun htype => absurd htype (streamFailureType_ne code).2⟩
  rcases h hvalid with ⟨e, he, htype, hstatus, hcode⟩ | ⟨hnone, hcode⟩
  · refine .inl ⟨e, he, ?_, hstatus.symm, hcode.symm⟩
    rw [htype]
    cases code <;> simp [terminalFrame, failureEvent, resultStreamEvent, streamFailureType,
      ResultStreamEventType.eventType]
  · exact .inr ⟨hnone, hcode.imp (congrArg some) (congrArg some)⟩

theorem closes_lawful (h : InProgress request valid log)
    (hclose : Closes env request startedAt n code log out) :
    Lawful (allowed request valid) out := by
  cases hclose with
  | unknown => exact lawful_concat.mpr ⟨h.lawful, trivial⟩
  | @attempted t t' event committed _ hcode hevent happend hshow =>
      have hready := h.since_now t t'
      have hterminal : isRuntimeTerminalStatus event.status = true := by
        rw [hevent]
        cases code <;> rfl
      obtain ⟨hlawful, houtcomes⟩ := hready.attempt hterminal true committed
      refine shows_lawful hlawful (allowed_terminalFrame fun _ => ?_) hshow
      cases committed with
      | true =>
          refine .inl ⟨event, ?_, ?_⟩
          · rw [houtcomes]
            exact List.mem_singleton_self event
          · rw [hevent]
            exact ⟨rfl, rfl, rfl⟩
      | false => exact .inr ⟨houtcomes, .inl rfl⟩

theorem allowed_completedFrame {sequence : Int} {t t' : Time} {entry : InvocationEventV03}
    (hentry : entry = succeededEvent request startedAt sequence t t')
    (houtcomes : outcomes log = [entry]) (bytes : Json.Bytes) (failure : Option GoError) :
    allowed request valid log (.frame (completedFrame request n) bytes failure) := by
  have hmem : entry ∈ outcomes log := by
    rw [houtcomes]
    exact List.mem_singleton_self entry
  subst hentry
  refine ⟨fun _ _ => .inl ⟨_, hmem, List.mem_cons_self, rfl, rfl⟩, fun _ => ?_, nofun⟩
  exact ⟨_, (List.mem_filter.mp hmem).1, rfl, rfl⟩

theorem InProgress.chunk (h : InProgress request valid log) (n : Nat) (payload : Json.Bytes)
    (committed : Bool) :
    InProgress request valid
      (log ++ [.append false (chunkEntry request startedAt n payload) committed]) :=
  h.concat h.unfinished rfl

/-- The frame of a chunk may follow its event. -/
theorem allowed_chunkFrame (n : Nat) (payload bytes : Json.Bytes) (failure : Option GoError) :
    allowed request valid (log ++ [.append false (chunkEntry request startedAt n payload) true])
      (.frame (chunkFrame request n payload) bytes failure) := by
  refine ⟨nofun, nofun, fun _ => ⟨chunkEntry request startedAt n payload, ?_, rfl, rfl, rfl, rfl⟩⟩
  rw [committed_concat]
  simp [Interaction.committed?]

/-! ### The initial events -/

theorem inProgress_first (t : Time) : InProgress request valid [.now t] := by
  have hnil : InProgress request valid [] := ⟨lawful_nil _, by simp [Unfinished]⟩
  exact hnil.concat (x := .now t) trivial trivial

theorem halts_lawful (hreq : request.Traceable) (h : InProgress request valid log)
    (hevent : isRuntimeTerminalStatus event.status = false)
    (hhalt : Halts env request startedAt child event log out) :
    Lawful (allowed request valid) out := by
  have hrefused : InProgress request valid (log ++ [.append false event false]) :=
    h.concat h.unfinished hevent
  cases hhalt with
  | failed _ hquiet =>
      have hnow := hrefused.quiets hquiet
      refine lawful_concat.mpr ⟨hnow.lawful, ?_⟩
      split_ifs
      · rw [preResponse_eq hreq rfl]
        exact fun _ => .inr ⟨hnow.no_outcome, .inl rfl⟩
      · exact hnow.respond_dependency hreq
  | @closed log1 c t t' entry committed _ hquiet hentry happend =>
      have hterminal : isRuntimeTerminalStatus entry.status = true := by
        rw [hentry]
        cases c <;> rfl
      obtain ⟨hlawful, houtcomes⟩ :=
        ((hrefused.quiets hquiet).now_since t t').attempt hterminal true
          committed
      refine lawful_concat.mpr
        ⟨hlawful, allowed_correlatedResponse hreq c.terminal_known ?_ houtcomes⟩
      rw [hentry]
      rfl

/-- The initial events keep the invocation open or end the run. -/
theorem opens_lawful (hreq : request.Traceable) (h : InProgress request valid log)
    {result : Bool × Log} (hevents : ∀ e ∈ events, isRuntimeTerminalStatus e.status = false)
    (hopen : Opens env request startedAt child events log result) :
    if result.1 then InProgress request valid result.2
    else Lawful (allowed request valid) result.2 := by
  induction hopen with
  | done log => exact h
  | commit happend _ ih =>
      rw [List.forall_mem_cons] at hevents
      exact ih (h.concat h.unfinished hevents.1) hevents.2
  | halt happend hhalt =>
      rw [List.forall_mem_cons] at hevents
      exact halts_lawful hreq h hevents.1 hhalt

theorem initialEvents_nonterminal (startedAt : Time) :
    ∀ e ∈ initialEvents request startedAt, isRuntimeTerminalStatus e.status = false := by
  simp [initialEvents, Env.createdEvent, Env.routingEvent, Env.startedEvent, lifecycleEvent,
    isRuntimeTerminalStatus]

theorem Recorded.append {type : EventType} (h : Recorded request log type) (more : Log) :
    Recorded request (log ++ more) type := by
  obtain ⟨e, he, hprops⟩ := h
  exact ⟨e, by rw [committed_append]; exact List.mem_append_left _ he, hprops⟩

theorem recorded_of_mem {e : InvocationEventV03} (he : e ∈ events)
    (hlog : log = out ++ events.map (.append false · true))
    (hid : e.invocationID = request.invocationID) : Recorded request log e.type := by
  refine ⟨e, ?_, rfl, hid⟩
  rw [hlog, committed_append]
  exact List.mem_append_right _
    (List.mem_filterMap.mpr ⟨.append false e true, by simpa using he, rfl⟩)

/-- After the initial events the agent may be called. -/
theorem allowed_send {t : Time}
    (hopen : Opens env request startedAt child (initialEvents request startedAt) [.now t]
      (true, log)) :
    (∀ y ∈ log, y.isSend = false) ∧ Recorded request log .created ∧ Recorded request log .routing
      ∧ Recorded request log .started := by
  have hlog := hopen.log_eq
  refine ⟨?_, ?_, ?_, ?_⟩
  · rw [hlog]
    simp [initialEvents, Interaction.isSend]
  · exact recorded_of_mem (e := Env.createdEvent request startedAt)
      (by simp [initialEvents]) hlog rfl
  · exact recorded_of_mem (e := Env.routingEvent request startedAt)
      (by simp [initialEvents]) hlog rfl
  · exact recorded_of_mem (e := Env.startedEvent request startedAt)
      (by simp [initialEvents]) hlog rfl

theorem InProgress.of_opens (hreq : request.Traceable) {t : Time}
    (hopen : Opens env request startedAt child (initialEvents request startedAt) [.now t]
      (true, log)) :
    InProgress request valid log :=
  opens_lawful hreq (inProgress_first t) (initialEvents_nonterminal _) hopen

/-! ### Whole runs -/

theorem jsonRun_lawful (hreq : request.Traceable) {targetErr : Option GoError}
    (hrun : JsonRun env request targetErr out) : Lawful (allowed request valid) out := by
  cases hrun with
  | halted hopen => exact opens_lawful hreq (inProgress_first _) (initialEvents_nonterminal _) hopen
  | @untargeted t t' err log _ herr hopen hanswer =>
      have hnow : InProgress request valid log := opens_lawful hreq (inProgress_first t)
        (fun e he => initialEvents_nonterminal _ e (List.mem_of_mem_take he)) hopen
      exact answers_lawful hreq (hnow.concat (x := .now t') trivial trivial) rfl
        hanswer
  | @failed t t' t'' err log log1 _ htarget hopen hquiet herr hanswer =>
      have hnow : InProgress request valid log := .of_opens hreq hopen
      have hsent : InProgress request valid (log ++ [.sendNonStreaming]) :=
        hnow.concat (allowed_send hopen) trivial
      refine answers_lawful hreq ((hsent.quiets hquiet).since_now t'' t') ?_
        hanswer
      cases dispatchErrorCode err <;> rfl
  | @succeeded t t' t'' result log log1 entry committed htarget hopen hquiet hresult hentry
      happend =>
      have hnow : InProgress request valid log := .of_opens hreq hopen
      have hsent : InProgress request valid (log ++ [.sendNonStreaming]) :=
        hnow.concat (allowed_send hopen) trivial
      have hterminal : isRuntimeTerminalStatus entry.status = true := by rw [hentry]; rfl
      obtain ⟨hlawful, houtcomes⟩ :=
        ((hsent.quiets hquiet).since_now t'' t').attempt hterminal true
          committed
      refine lawful_concat.mpr ⟨hlawful, ?_⟩
      cases committed with
      | true =>
          refine ⟨entry, ?_, by rw [hentry]; rfl, by rw [hentry]; rfl⟩
          rw [committed_concat]
          exact List.mem_append_right _ (List.mem_singleton_self entry)
      | false =>
          rw [if_neg Bool.false_ne_true, correlatedResponse_eq hreq rfl]
          exact fun _ => .inr ⟨houtcomes, .inl rfl⟩

end Steps

/-- The ledger has no event the contract refuses. -/
def Env.LedgerValid [Semver] (env : Env) : Prop :=
  ∀ log grace event, env.append log grace event = true → validateInvocationEventV03 event = .ok ()

section Runs

variable [Semver] {env : Env} {request : DispatchInvocationRequestV1} {valid : Prop}
  {startedAt : Time} {log out : Log}

/-- A reported outcome the ledger has is the code's own. -/
theorem outcome_of_valid {n : Nat} {outcome : ResultStreamEventType × InvocationStatus}
    {code : PlatformErrorCode} {t t' : Time}
    (houtcome : outcome ∈ [(.completed, .succeeded), (.failed, .failed), (.canceled, .canceled),
      (.timedOut, .timedOut)])
    (hvalid : validateInvocationEventV03 (terminalEntry request startedAt n outcome code t t')
      = .ok ()) : outcome = streamFailureType code := by
  have hshape := (validateInvocationEventV03_ok_iff.mp hvalid).1.shape
  simp only [List.mem_cons, List.not_mem_nil, or_false] at houtcome
  rcases houtcome with rfl | rfl | rfl | rfl <;> cases code <;> first | rfl | exact nomatch hshape

theorem relay_lawful (hledger : valid → env.LedgerValid) {n : Nat}
    (h : InProgress request valid log)
    (hrelay : Relay env request startedAt n log out) : Lawful (allowed request valid) out := by
  induction hrelay with
  | fails hquiet _ hclose => exact closes_lawful (h.quiets hquiet) hclose
  | refused _ _ hquiet _ hclose => exact closes_lawful ((h.chunk _ _ _).quiets hquiet) hclose
  | failedLedger _ _ _ hquiet hshow =>
      have hnow := (h.chunk _ _ _).quiets hquiet
      exact shows_lawful hnow.lawful
        (allowed_terminalFrame fun _ => .inr ⟨hnow.no_outcome, .inl rfl⟩) hshow
  | tooLarge _ _ _ _ hquiet _ hclose =>
      exact closes_lawful (((h.chunk _ _ _).refused _).quiets hquiet) hclose
  | broken _ _ _ _ _ hquiet _ hclose =>
      exact closes_lawful
        (((h.chunk _ _ _).concat (allowed_chunkFrame _ _ _ _) rfl).quiets hquiet) hclose
  | delivered _ _ _ _ _ _ ih => exact ih ((h.chunk _ _ _).concat (allowed_chunkFrame _ _ _ _) rfl)
  | @completes n log log1 _ t t' entry committed hquiet hentry happend hshow =>
      have hterminal : isRuntimeTerminalStatus entry.status = true := by rw [hentry]; rfl
      obtain ⟨hlawful, houtcomes⟩ :=
        ((h.quiets hquiet).now_since t t').attempt hterminal true committed
      refine shows_lawful hlawful ?_ hshow
      cases committed with
      | true => exact allowed_completedFrame hentry houtcomes
      | false => exact allowed_terminalFrame fun _ => .inr ⟨houtcomes, .inl rfl⟩
  | @reports n log log1 _ t t' event entry committed outcome hquiet hevent hlast hcode
      houtcome hother
      hentry happend hshow =>
      have hcases := streamTerminalType_cases event.terminalType event.terminalStatus
      rw [← houtcome] at hcases
      have hterminal : isRuntimeTerminalStatus entry.status = true := by
        rw [hentry]
        simp only [List.mem_cons, List.not_mem_nil, or_false] at hcases
        rcases hcases with rfl | rfl | rfl | rfl <;> rfl
      obtain ⟨hlawful, houtcomes⟩ :=
        ((h.quiets hquiet).since_now t t').attempt hterminal true committed
      refine shows_lawful hlawful (allowed_terminalFrame fun hvalid => ?_) hshow
      cases committed with
      | false => exact .inr ⟨houtcomes, .inl rfl⟩
      | true =>
          have hown : outcome = streamFailureType event.errorCode :=
            outcome_of_valid hcases (hentry ▸ hledger hvalid _ _ _ happend)
          have hshown : shownCode outcome event.errorCode true = event.errorCode := by
            rw [shownCode, if_pos rfl, if_pos hown]
          refine .inl ⟨entry, by rw [houtcomes]; exact List.mem_singleton_self entry, ?_⟩
          rw [hentry, hshown, ← hown]
          exact ⟨rfl, rfl, rfl⟩
  | unreportable hquiet _ _ _ _ _ hshow =>
      have hnow := h.quiets hquiet
      exact shows_lawful hnow.lawful
        (allowed_terminalFrame fun _ => .inr ⟨hnow.no_outcome, .inr rfl⟩) hshow

theorem streamRun_lawful (hreq : request.Traceable) (hledger : valid → env.LedgerValid)
    (hrun : StreamRun env request out) : Lawful (allowed request valid) out := by
  cases hrun with
  | halted hopen => exact opens_lawful hreq (inProgress_first _) (initialEvents_nonterminal _) hopen
  | @unsupported t t' log _ hopen hwriter hanswer =>
      have hnow : InProgress request valid log := .of_opens hreq hopen
      exact answers_lawful hreq (hnow.concat (x := .now t') trivial trivial) rfl
        hanswer
  | @unaccepted t t' err code log log1 _ hopen hencode hquiet hcode hcontext hanswer =>
      have hnow : InProgress request valid log := .of_opens hreq hopen
      have hlater := (hnow.refused (acceptedEvent request)).quiets hquiet
      exact answers_lawful hreq (hlater.concat (x := .now t') trivial trivial)
        rfl hanswer
  | @broken t bytes failure code log log1 _ hopen hencode hwrite hquiet hcode hclose =>
      have hnow : InProgress request valid log := .of_opens hreq hopen
      have hshown : InProgress request valid
          (log ++ [.frame (acceptedEvent request) bytes (some failure)]) :=
        hnow.concat ⟨nofun, nofun, nofun⟩ rfl
      exact closes_lawful (hshown.quiets hquiet) hclose
  | @relayed t bytes log _ hopen hencode hwrite hrelay =>
      have hnow : InProgress request valid log := .of_opens hreq hopen
      have hshown : InProgress request valid (log ++ [.frame (acceptedEvent request) bytes none]) :=
        hnow.concat ⟨nofun, nofun, nofun⟩ rfl
      obtain ⟨hunsent, hcreated, hrouting, hstarted⟩ := allowed_send hopen
      have hsend : allowed request valid (log ++ [.frame (acceptedEvent request) bytes none])
          .sendStreaming :=
        ⟨List.forall_mem_append.mpr ⟨hunsent, by simp [Interaction.isSend]⟩, hcreated.append _,
          hrouting.append _, hstarted.append _⟩
      exact relay_lawful hledger (hshown.concat hsend trivial) hrelay

/-- **The ledger comes first**, in its order with any ledger; on the
streaming path the client is told the outcome of a ledger that has no
event the contract refuses, and on the JSON path that of any ledger. -/
theorem dispatch_ledgerFirst (hvalidated : request.Validated) (targetErr : Option GoError) :
    LedgerFirst request (env.dispatchNonStreamingWithLedger request targetErr []).2
      ∧ Ordered request (env.dispatchStreamingWithLedger request []).2
      ∧ (env.LedgerValid → LedgerFirst request (env.dispatchStreamingWithLedger request []).2) := by
  have hreq := hvalidated.traceable
  have hrun : StreamRun env request (env.dispatchStreamingWithLedger request []).2 := streamRun hreq
  have hstream := streamRun_lawful hreq id hrun
  exact ⟨.of_lawful (jsonRun_lawful hreq (jsonRun hreq targetErr)) trivial, .of_lawful hstream,
    .of_lawful hstream⟩

end Runs

/-- An agent that reports a failure with the code of a cancellation. -/
def contradictoryEvent : StreamEvent := ⟨Json.utf8 "1", .failed, .failed, .canceled⟩

/-- A ledger that checks events as the contract does. -/
def Env.checking [Semver] (env : Env) : Env :=
  { env with append := fun _ _ event => decide (validateInvocationEventV03 event = .ok ()) }

theorem dispatch_ledgerFirst_checking :
    letI := Semver.only ["1.0.0"]
    sampleRequest.Validated ∧ (Env.calm [.ok contradictoryEvent]).checking.LedgerValid
      ∧ LedgerFirst sampleRequest ((Env.calm [.ok contradictoryEvent]).checking
        |>.dispatchNonStreamingWithLedger sampleRequest none []).2
      ∧ LedgerFirst sampleRequest ((Env.calm [.ok contradictoryEvent]).checking
        |>.dispatchStreamingWithLedger sampleRequest []).2 := by
  let _ := Semver.only ["1.0.0"]
  have hvalidated : sampleRequest.Validated := .inl (by decide +kernel)
  have hledger : (Env.calm [.ok contradictoryEvent]).checking.LedgerValid :=
    fun _ _ _ h => of_decide_eq_true h
  exact ⟨hvalidated, hledger, (dispatch_ledgerFirst hvalidated none).1,
    (dispatch_ledgerFirst hvalidated none).2.2 hledger⟩

theorem Truthful.code_eq {log : Log} {x : Interaction} (h : Truthful log x)
    (houtcomes : outcomes log ≠ []) : ∃ e ∈ outcomes log, x.code? = e.error.map (·.code) := by
  rcases h with ⟨e, he, hmatch⟩ | ⟨hnone, -⟩
  · refine ⟨e, he, ?_⟩
    cases x with
    | frame event bytes failure => exact hmatch.2.2
    | respond response =>
        cases response with
        | correlated status error => exact hmatch.2.symm
        | _ => exact hmatch.elim
    | _ => exact hmatch.elim
  · exact absurd hnone houtcomes

/-- A ledger that takes everything has the agent's failure with the code
of a cancellation; the validator of the stream refuses it, and the
client is told of a protocol error. -/
theorem contradictoryEvent_untruthful :
    letI := Semver.only ["1.0.0"]
    sampleRequest.Validated ∧ ¬LedgerFirst sampleRequest
      ((Env.calm [.ok contradictoryEvent]).dispatchStreamingWithLedger sampleRequest []).2 := by
  let _ := Semver.only ["1.0.0"]
  refine ⟨.inl (by decide +kernel), fun h => ?_⟩
  generalize hlog : ((Env.calm [.ok contradictoryEvent]).dispatchStreamingWithLedger sampleRequest
    []).2 = log at h
  have hfacts : (log = log.dropLast ++ [.frame (terminalFrame sampleRequest 1 .a2aProtocol)
        (InvocationResultStreamEventV2.frameOf
          ((terminalFrame sampleRequest 1 .a2aProtocol).marshal.getD [])) none]
      ∧ ∃ e ∈ committed log.dropLast, e.type = .created
        ∧ e.invocationID = sampleRequest.invocationID)
      ∧ outcomes log ≠ [] ∧ ∀ e ∈ outcomes log, some .a2aProtocol ≠ e.error.map (·.code) := by
    rw [← hlog]
    decide +kernel
  obtain ⟨⟨hlast, hcreated⟩, houtcomes, hother⟩ := hfacts
  obtain ⟨e, he, hcode⟩ := (h.outcome _ _ _ hlast rfl hcreated).code_eq houtcomes
  exact hother e he hcode

end Dispatch

end Nekiro
