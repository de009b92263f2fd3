import Nekiro.DispatchProtocol

/-!
# The frames of a stream

The frames a streaming dispatch hands to the client are a result stream
on their own: a fresh validator accepts them one by one, each is one
`data:` line within the limit, and the last one is terminal unless the
limit has no room for it.

The validator of the handler is ahead of the client in one case: it has
accepted a chunk whose frame the writer then refuses, and the terminal
frame skips the chunk's number. So the theorem asks that the chunks fit.
It also asks that the agent's errors carry codes of Platform Error v4,
since an error with another code ends the stream without a word.
-/

namespace Nekiro

namespace Dispatch

open Guard RuntimeResultStreamSequenceValidator

def Interaction.frame? : Interaction → Option InvocationResultStreamEventV2
  | .frame event _ _ => some event
  | _ => none

/-- The frames handed to the client. -/
def frames (log : Log) : List InvocationResultStreamEventV2 := log.filterMap Interaction.frame?

/-- The limit has room for the frame of an event. -/
def Fits (limit : Int) (event : InvocationResultStreamEventV2) : Prop :=
  ∃ payload, event.marshal = some payload
    ∧ ((InvocationResultStreamEventV2.frameOf payload).length : Int) ≤ limit

/-- Every frame is one `data:` line followed by a blank line,
within the limit. -/
def Framed (limit : Int) (log : Log) : Prop :=
  ∀ event bytes failure, .frame event bytes failure ∈ log →
    ∃ payload, event.marshal = some payload ∧ bytes = Json.utf8 "data: " ++ payload ++ [0x0A, 0x0A]
      ∧ 0x0A ∉ payload ∧ 0x0D ∉ payload ∧ (bytes.length : Int) ≤ limit

/-- What the client gets is a result stream. -/
structure ResultStream (request : DispatchInvocationRequestV1) (limit : Int) (log : Log) :
    Prop where
  accepted : ∃ fresh last, newRuntimeResultStreamSequenceValidator request.invocationID
      request.rootTaskID request.traceID = .ok fresh ∧ fresh.acceptAll (frames log) = .ok last
  framed : Framed limit log
  terminal : frames log ≠ [] →
    (∀ event, .refused event ∈ log → event.type.isTerminal = true → Fits limit event) →
    ∃ last, (frames log).getLast? = some last ∧ last.type.isTerminal = true

/-! ## The writer -/

theorem printable_no_break {payload : Json.Bytes} (h : Json.Printable payload) :
    0x0A ∉ payload ∧ 0x0D ∉ payload :=
  ⟨fun hmem => absurd (h _ hmem) (by decide), fun hmem => absurd (h _ hmem) (by decide)⟩

variable {writer : ResultStreamWriter} {event : InvocationResultStreamEventV2}

variable {bytes : Json.Bytes} {x : Interaction}

/-- The limit is the only reason to refuse an event. -/
theorem encode_ok_iff :
    writer.encode event = .ok bytes ↔ ∃ payload, event.marshal = some payload
      ∧ bytes = InvocationResultStreamEventV2.frameOf payload
      ∧ (bytes.length : Int) ≤ writer.limit := by
  unfold ResultStreamWriter.encode
  cases hmarshal : event.marshal with
  | none => simp
  | some payload =>
      have hbreak := printable_no_break (InvocationResultStreamEventV2.printable_marshal hmarshal)
      dsimp only
      rw [if_neg (by simp [hbreak.1, hbreak.2])]
      split_ifs with hlimit
      · simp only [Option.some.injEq, exists_eq_left', false_iff, not_and]
        rintro rfl
        omega
      · simp only [Except.ok.injEq, Option.some.injEq, exists_eq_left']
        constructor
        · rintro rfl
          exact ⟨rfl, by omega⟩
        · exact fun h => h.1.symm

theorem not_fits_of_encode {err : GoError} (h : writer.encode event = .error err) :
    ¬Fits writer.limit event := by
  rintro ⟨payload, hmarshal, hlimit⟩
  rw [encode_ok_iff.mpr ⟨payload, hmarshal, rfl, hlimit⟩] at h
  exact nomatch h

/-! ## Frames along a run -/

theorem frames_append (log log' : Log) : frames (log ++ log') = frames log ++ frames log' :=
  List.filterMap_append

theorem frames_plain (log : Log) (hx : x.frame? = none) : frames (log ++ [x]) = frames log := by
  rw [frames_append]
  simp [frames, hx]

section Run

variable {env : Env} {request : DispatchInvocationRequestV1} {startedAt : Time} {log out : Log}

/-- The client has an open stream of `n` chunks. -/
structure Streaming (request : DispatchInvocationRequestV1) (limit : Int) (n : Nat) (log : Log) :
    Prop where
  accepted : ∃ fresh, newRuntimeResultStreamSequenceValidator request.invocationID
      request.rootTaskID request.traceID = .ok fresh
    ∧ fresh.acceptAll (frames log) = .ok (streamState request n)
  framed : Framed limit log

variable {limit : Int} {event : InvocationResultStreamEventV2} {n : Nat} {code : PlatformErrorCode}

theorem framed_plain (h : Framed limit log) (hx : x.frame? = none) : Framed limit (log ++ [x]) := by
  intro event bytes failure hmem
  rcases List.mem_append.mp hmem with hmem | hmem
  · exact h event bytes failure hmem
  · rw [← List.mem_singleton.mp hmem] at hx
    exact nomatch hx

theorem framed_of_encode {writer : ResultStreamWriter} (h : Framed writer.limit log)
    (hencode : writer.encode event = .ok bytes) (failure : Option GoError) :
    Framed writer.limit (log ++ [.frame event bytes failure]) := by
  intro event' bytes' failure' hmem
  rcases List.mem_append.mp hmem with hmem | hmem
  · exact h event' bytes' failure' hmem
  obtain ⟨rfl, rfl, -⟩ := Interaction.frame.inj (List.mem_singleton.mp hmem)
  obtain ⟨payload, hmarshal, hbytes, hlimit⟩ := encode_ok_iff.mp hencode
  have hbreak := printable_no_break (InvocationResultStreamEventV2.printable_marshal hmarshal)
  exact ⟨payload, hmarshal, hbytes, hbreak.1, hbreak.2, hlimit⟩

theorem Streaming.plain (h : Streaming request limit n log) (hx : x.frame? = none) :
    Streaming request limit n (log ++ [x]) where
  accepted := by
    rw [frames_plain log hx]
    exact h.accepted
  framed := framed_plain h.framed hx

theorem Streaming.quiets (h : Streaming request limit n log) {log' : Log}
    (hquiet : Quiets log log') :
    Streaming request limit n log' :=
  hquiet.induction h fun _ x hl hx => hl.plain (by cases x <;> first | rfl | exact hx.elim)

/-- A frame the validator accepts next. -/
theorem Streaming.next {n : Nat} (h : Streaming request env.openWriter.limit n log)
    {event : InvocationResultStreamEventV2} {bytes : Json.Bytes}
    (hencode : env.openWriter.encode event = .ok bytes)
    {v : RuntimeResultStreamSequenceValidator}
    (haccept : (streamState request n).accept event = .ok v) (failure : Option GoError) :
    (∃ fresh, newRuntimeResultStreamSequenceValidator request.invocationID request.rootTaskID
        request.traceID = .ok fresh
      ∧ fresh.acceptAll (frames (log ++ [.frame event bytes failure])) = .ok v)
      ∧ Framed env.openWriter.limit (log ++ [.frame event bytes failure]) := by
  obtain ⟨fresh, hfresh, hall⟩ := h.accepted
  refine ⟨⟨fresh, hfresh, ?_⟩, framed_of_encode h.framed hencode failure⟩
  rw [frames_append]
  exact (acceptAll_concat hall).trans haccept

theorem ResultStream.cancel (h : ResultStream request limit log) :
    ResultStream request limit (log ++ [.cancel]) := by
  have hframes : frames (log ++ [.cancel]) = frames log := frames_plain log rfl
  refine ⟨by rw [hframes]; exact h.accepted, framed_plain h.framed rfl, fun hne hfits => ?_⟩
  rw [hframes] at hne ⊢
  exact h.terminal hne fun event hmem => hfits event (List.mem_append_left _ hmem)

/-- A terminal event ends the stream. -/
theorem shows_stream (h : Streaming request env.openWriter.limit n log)
    {v : RuntimeResultStreamSequenceValidator}
    (haccept : (streamState request n).accept event = .ok v)
    (hterminal : event.type.isTerminal = true) (hshow : Shows env event log out) :
    ResultStream request env.openWriter.limit out := by
  have hwritten : ∀ {bytes failure}, env.openWriter.encode event = .ok bytes →
      ResultStream request env.openWriter.limit (log ++ [.frame event bytes failure]) := by
    intro bytes failure hencode
    obtain ⟨⟨fresh, hfresh, hall⟩, hframed⟩ := h.next hencode haccept failure
    refine ⟨⟨fresh, v, hfresh, hall⟩, hframed, fun _ _ => ⟨event, ?_, hterminal⟩⟩
    rw [frames_append]
    exact List.getLast?_concat
  cases hshow with
  | refused hencode =>
      refine ResultStream.cancel ⟨?_, ?_, fun _ hfits => ?_⟩
      · obtain ⟨fresh, hfresh, hall⟩ := h.accepted
        rw [frames_plain log rfl]
        exact ⟨fresh, _, hfresh, hall⟩
      · exact framed_plain h.framed rfl
      · exact absurd (hfits event (List.mem_append_right _ (List.mem_singleton_self _)) hterminal)
          (not_fits_of_encode hencode)
  | broken hencode => exact (hwritten hencode).cancel
  | shown hencode => exact hwritten hencode

theorem terminalFrame_terminal (n : Nat) (code : PlatformErrorCode) :
    (terminalFrame request n code).type.isTerminal = true := by
  cases code <;> rfl

theorem reports_stream (hreq : request.Traceable) (h : Streaming request env.openWriter.limit n log)
    (hcode : code.known = true) (hshow : Shows env (terminalFrame request n code) log out) :
    ResultStream request env.openWriter.limit out :=
  shows_stream h (accept_terminalFrame hreq n hcode) (terminalFrame_terminal n code) hshow

theorem closes_stream (hreq : request.Traceable) (h : Streaming request env.openWriter.limit n log)
    (hcode : code.known = true) (hclose : Closes env request startedAt n code log out) :
    ResultStream request env.openWriter.limit out := by
  cases hclose with
  | unknown hunknown =>
      rw [hcode] at hunknown
      exact nomatch hunknown
  | @attempted t t' event committed _ _ _ _ hshow =>
      have hnow : Streaming request env.openWriter.limit n
          (log ++ [.since t] ++ [.now t'] ++ [.append true event committed]) :=
        ((h.plain rfl).plain rfl).plain rfl
      refine reports_stream hreq hnow ?_ hshow
      cases committed with
      | true => exact hcode
      | false => rfl

/-- The chunks the agent sends fit, and its errors have codes of Platform
Error v4. -/
structure Env.Deliverable (env : Env) (request : DispatchInvocationRequestV1) : Prop where
  chunks : ∀ n event, env.stream[n]? = some (.ok event) →
    validateInvocationResultStreamEventV2 (chunkFrame request n event.payload) = .ok () →
    Fits env.sseEventLimitBytes (chunkFrame request n event.payload)
  codes : ∀ err, .error err ∈ env.stream → (streamCode none err).known = true

theorem Streaming.chunk (h : Streaming request env.openWriter.limit n log) {payload : Json.Bytes}
    {failure : Option GoError} {entry : InvocationEventV03}
    (hvalid : validateInvocationResultStreamEventV2 (chunkFrame request n payload) = .ok ())
    (hencode : env.openWriter.encode (chunkFrame request n payload) = .ok bytes) :
    Streaming request env.openWriter.limit (n + 1)
      (log ++ [.append false entry true]
        ++ [.frame (chunkFrame request n payload) bytes failure]) :=
  have hnow : Streaming request env.openWriter.limit n (log ++ [.append false entry true]) :=
    h.plain rfl
  have hnext := hnow.next hencode (accept_chunkFrame hvalid) failure
  ⟨hnext.1, hnext.2⟩

theorem relay_stream (hreq : request.Traceable) (hdeliver : env.Deliverable request)
    (h : Streaming request env.openWriter.limit n log)
    (hrelay : Relay env request startedAt n log out) :
    ResultStream request env.openWriter.limit out := by
  induction hrelay with
  | fails hquiet hcode hclose =>
      refine closes_stream hreq (h.quiets hquiet) ?_ hclose
      rcases hcode with hcode | ⟨err, hmem, rfl⟩
      · exact hcode
      · exact hdeliver.codes err hmem
  | refused _ _ hquiet hcode hclose =>
      exact closes_stream hreq ((h.plain rfl).quiets hquiet) hcode hclose
  | failedLedger _ _ _ hquiet hshow =>
      exact reports_stream hreq ((h.plain rfl).quiets hquiet) rfl hshow
  | tooLarge hevent hvalid _ hencode _ _ _ =>
      exact absurd (hdeliver.chunks _ _ hevent hvalid) (not_fits_of_encode hencode)
  | broken _ hvalid _ hencode _ hquiet hcode hclose =>
      exact closes_stream hreq ((h.chunk hvalid hencode).quiets hquiet) hcode hclose
  | delivered _ hvalid _ hencode _ _ ih => exact ih (h.chunk hvalid hencode)
  | @completes n _ log1 _ t t' _ committed hquiet hentry happend hshow =>
      have hnow := (((h.quiets hquiet).plain (x := .now t') rfl).plain (x := .since t) rfl)
      cases committed with
      | true => exact shows_stream (hnow.plain rfl) (accept_completed hreq n) rfl hshow
      | false => exact reports_stream hreq (hnow.plain rfl) rfl hshow
  | @reports n _ log1 _ t t' event _ committed outcome hquiet hevent hlast hcode houtcome
      hother hentry
      happend hshow =>
      have hnow := (((h.quiets hquiet).plain (x := .since t) rfl).plain (x := .now t') rfl)
      refine reports_stream hreq (hnow.plain rfl) ?_ hshow
      unfold shownCode
      split_ifs
      · exact hcode
      · rfl
      · rfl
  | unreportable hquiet _ _ _ _ _ hshow => exact reports_stream hreq (h.quiets hquiet) rfl hshow

end Run

/-! ## Whole runs -/

section Whole

variable {env : Env} {request : DispatchInvocationRequestV1} {startedAt : Time} {log out : Log}

/-- No frame was handed to the client. -/
def Silent (log : Log) : Prop := ∀ x ∈ log, x.frame? = none

theorem Silent.concat (h : Silent log) (hx : x.frame? = none) : Silent (log ++ [x]) :=
  List.forall_mem_append.mpr ⟨h, List.forall_mem_singleton.mpr hx⟩

theorem Silent.quiets (h : Silent log) {log' : Log} (hquiet : Quiets log log') : Silent log' :=
  hquiet.induction h fun _ x hl hx => hl.concat (by cases x <;> first | rfl | exact hx.elim)

theorem Silent.frames_eq (h : Silent log) : frames log = [] := List.filterMap_eq_nil_iff.mpr h

theorem Silent.framed (h : Silent log) (limit : Int) : Framed limit log :=
  fun _ _ _ hmem => nomatch h _ hmem

/-- A run without a frame is an empty stream. -/
theorem Silent.resultStream (h : Silent log) (hreq : request.Traceable) (limit : Int) :
    ResultStream request limit log := by
  obtain ⟨fresh, hfresh, -⟩ := accept_acceptedEvent hreq
  refine ⟨⟨fresh, fresh, hfresh, ?_⟩, h.framed limit, fun hne => absurd h.frames_eq hne⟩
  rw [h.frames_eq]
  rfl

theorem opens_silent (h : Silent log) {child : Bool} {events : List InvocationEventV03}
    {result : Bool × Log} (hopen : Opens env request startedAt child events log result) :
    Silent result.2 := by
  induction hopen with
  | done => exact h
  | commit _ _ ih => exact ih (h.concat rfl)
  | halt _ hhalt =>
      cases hhalt with
      | failed _ hquiet => exact ((h.concat rfl).quiets hquiet).concat rfl
      | closed _ hquiet =>
          exact (((((h.concat rfl).quiets hquiet).concat rfl).concat rfl).concat rfl).concat rfl

theorem answers_silent (h : Silent log) {sequence : Int} {eventType : EventType}
    {status : InvocationStatus} {occurredAt : Time} {latency : Int} {code : PlatformErrorCode}
    (hanswer : Answers env request sequence eventType status occurredAt latency code log out) :
    Silent out := by
  cases hanswer with
  | unknown => exact h.concat rfl
  | attempted => exact (h.concat rfl).concat rfl

theorem silent_first (t : Time) : Silent [.now t] := List.forall_mem_singleton.mpr rfl

/-- The stream has begun. -/
theorem streaming_accepted (hreq : request.Traceable) (h : Silent log)
    (hencode : env.openWriter.encode (acceptedEvent request) = .ok bytes)
    (failure : Option GoError) :
    Streaming request env.openWriter.limit 0 (log ++ [.frame (acceptedEvent request) bytes failure])
    where
  accepted := by
    obtain ⟨fresh, hfresh, haccept⟩ := accept_acceptedEvent hreq
    refine ⟨fresh, hfresh, ?_⟩
    rw [frames_append, h.frames_eq]
    have hstart : fresh.acceptAll [] = .ok fresh := rfl
    exact (acceptAll_concat hstart).trans haccept
  framed := framed_of_encode (h.framed _) hencode failure

theorem streamRun_stream (hreq : request.Traceable) (hdeliver : env.Deliverable request)
    (hrun : StreamRun env request out) : ResultStream request env.sseEventLimitBytes out := by
  cases hrun with
  | halted hopen => exact (opens_silent (silent_first _) hopen).resultStream hreq _
  | unsupported hopen _ hanswer =>
      have hnow := opens_silent (silent_first _) hopen
      exact (answers_silent (hnow.concat rfl) hanswer).resultStream hreq _
  | unaccepted hopen _ hquiet _ _ hanswer =>
      have hnow := opens_silent (silent_first _) hopen
      exact (answers_silent (((hnow.concat rfl).quiets hquiet).concat rfl) hanswer).resultStream
        hreq _
  | broken hopen hencode _ hquiet hcode hclose =>
      have hnow := opens_silent (silent_first _) hopen
      exact closes_stream hreq ((streaming_accepted hreq hnow hencode _).quiets hquiet) hcode hclose
  | relayed hopen hencode _ hrelay =>
      have hnow := opens_silent (silent_first _) hopen
      exact relay_stream hreq hdeliver ((streaming_accepted hreq hnow hencode _).plain rfl) hrelay

/-- **What the client gets is a result stream**, when the agent's chunks
fit and its errors have known codes. -/
theorem dispatchStreaming_resultStream [Semver] (hvalidated : request.Validated)
    (hdeliver : env.Deliverable request) :
    ResultStream request env.sseEventLimitBytes (env.dispatchStreamingWithLedger request []).2 :=
  streamRun_stream hvalidated.traceable hdeliver (streamRun hvalidated.traceable)

end Whole

/-- One chunk, and the agent has completed. -/
def completingEvent : StreamEvent := ⟨Json.utf8 "1", .completed, .succeeded, .other ""⟩

theorem dispatchStreaming_resultStream_completing :
    letI := Semver.only ["1.0.0"]
    sampleRequest.Validated ∧ (Env.calm [.ok completingEvent]).Deliverable sampleRequest
      ∧ ResultStream sampleRequest 65536
        ((Env.calm [.ok completingEvent]).dispatchStreamingWithLedger sampleRequest []).2 := by
  let _ := Semver.only ["1.0.0"]
  have hvalidated : sampleRequest.Validated := .inl (by decide +kernel)
  have hdeliver : (Env.calm [.ok completingEvent]).Deliverable sampleRequest := by
    refine ⟨fun n event hevent _ => ?_, fun err herr => ?_⟩
    · obtain ⟨rfl, rfl⟩ : n = 0 ∧ completingEvent = event := by
        cases n with
        | zero => simpa [Env.calm] using hevent
        | succ n => simp [Env.calm] at hevent
      exact ⟨(chunkFrame sampleRequest 0 completingEvent.payload).marshal.getD [],
        by decide +kernel, by decide +kernel⟩
    · simp [Env.calm] at herr
  exact ⟨hvalidated, hdeliver, dispatchStreaming_resultStream hvalidated hdeliver⟩

/-- A chunk of 50 characters that JSON escapes, so 300 bytes of a frame. -/
def longEvent : StreamEvent :=
  ⟨0x22 :: List.replicate 50 0x3C ++ [0x22], .completed, .succeeded, .other ""⟩

/-- A limit the first and the last frame meet and the chunk does not: the
client gets the numbers 0 and 2. -/
theorem longEvent_gap :
    letI := Semver.only ["1.0.0"]
    sampleRequest.Validated ∧ ¬ResultStream sampleRequest 400
      ({ Env.calm [.ok longEvent] with sseEventLimitBytes := 400 }.dispatchStreamingWithLedger
        sampleRequest []).2 := by
  let _ := Semver.only ["1.0.0"]
  refine ⟨.inl (by decide +kernel), fun h => ?_⟩
  obtain ⟨fresh, last, hfresh, hall⟩ := h.accepted
  have hrefuses : ((newRuntimeResultStreamSequenceValidator sampleRequest.invocationID
      sampleRequest.rootTaskID sampleRequest.traceID >>= fun fresh => fresh.acceptAll
        (frames ({ Env.calm [.ok longEvent] with sseEventLimitBytes := 400
          }.dispatchStreamingWithLedger sampleRequest []).2)).isOk) = false := by
    decide +kernel
  rw [hfresh, ok_bind, hall] at hrefuses
  exact nomatch hrefuses

end Dispatch

end Nekiro
