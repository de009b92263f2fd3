import Nekiro.DispatchEvents
import Nekiro.Logged

/-!
# The dispatch handler

`dispatchNonStreamingWithLedger` and `dispatchStreamingWithLedger` as
programs that talk to the ledger, the clock, the request context, the
agent and the client, with everything they say on record.

The surroundings (`Env`) answer by what was said before, so they are an
arbitrary ledger, clock, agent and client. Only two things are fixed: a
context that is done stays done, and the agent's stream is finite. The
`grace` context of terminal writes is `terminalLedgerContext`.
-/

namespace Nekiro

namespace Dispatch

/-- `streammodel.Event`, as far as the handler reads it. The empty
terminal type and error code are `other ""`. -/
structure StreamEvent where
  payload : Json.Bytes
  terminalType : ResultStreamEventType
  terminalStatus : InvocationStatus
  errorCode : PlatformErrorCode
deriving Repr, DecidableEq

/-- What a dispatch says to its surroundings, with their answer. -/
inductive Interaction where
  /-- A reading by `time.Now` or by `time.Since`. -/
  | now (t : Time)
  | since (t : Time)
  | contextErr (err : Option ContextError)
  /-- `ledger.Append` under the request context or the grace context. -/
  | append (grace : Bool) (event : InvocationEventV03) (committed : Bool)
  | sendNonStreaming
  | sendStreaming
  /-- A frame handed to the client's writer; `failure` is what came back. -/
  | frame (event : InvocationResultStreamEventV2) (bytes : Json.Bytes) (failure : Option GoError)
  /-- A frame the writer refused by itself. -/
  | refused (event : InvocationResultStreamEventV2)
  | respond (response : Response)
  | cancel
deriving Repr, DecidableEq

abbrev Log := List Interaction

/-- The surroundings of a dispatch. -/
structure Env where
  now : Log → Time
  contextErr : Log → Option ContextError
  done : ∀ log x e, contextErr log = some e → contextErr (log ++ [x]) = some e
  append : Log → Bool → InvocationEventV03 → Bool
  write : Log → Json.Bytes → Option GoError
  /-- The response writer is an `http.Flusher`. -/
  flusher : Bool
  sseEventLimitBytes : Int
  nonStreaming : Except GoError Json.Bytes
  stream : List (Except GoError StreamEvent)

structure ResultStreamWriter where
  limit : Int
  committed : Bool
deriving Repr, DecidableEq

abbrev Program := Logged Interaction

def errSSEFrameTooLarge : GoError := .plain "SSE event exceeds the configured limit"

/-- The frame of an event, or the error `Write` reports before it
writes. -/
def ResultStreamWriter.encode (writer : ResultStreamWriter)
    (event : InvocationResultStreamEventV2) : Except GoError Json.Bytes :=
  match event.marshal with
  | none => .error (.coded .a2aProtocol (.plain "json"))
  | some payload =>
      if 0x0A ∈ payload ∨ 0x0D ∈ payload then
        .error (.coded .a2aProtocol (.plain "SSE JSON contains a physical line break"))
      else
        let frame := InvocationResultStreamEventV2.frameOf payload
        if (frame.length : Int) > writer.limit then
          .error (.coded .agentResponseTooLarge errSSEFrameTooLarge)
        else .ok frame

def respond (response : Response) : Program Unit := Logged.say (.respond response)

def cancel : Program Unit := Logged.say .cancel

namespace Env

variable (env : Env)

/-! ## Primitives -/

def readClock (entry : Time → Interaction) : Program Time := Logged.ask env.now entry

def readContext : Program (Option ContextError) := Logged.ask env.contextErr .contextErr

def appendEvent (grace : Bool) (event : InvocationEventV03) : Program Bool :=
  Logged.ask (fun log => env.append log grace event) (.append grace event)

/-! ## Clock and context -/

/-- `time.Now().UTC().Truncate(time.Microsecond)`. -/
def startedAt : Program Time := do
  let t ← env.readClock .now
  pure t.truncateMicro

/-- `time.Since(startedAt).Milliseconds()` at `t`: the wall clock
difference, saturated to 64 bits, with the fraction cut off. -/
def millisecondsSince (startedAt t : Time) : Int :=
  (max (-9223372036854775808) (min (t - startedAt) 9223372036854775807)).tdiv 1000000

def sinceMS (startedAt : Time) : Program Int := do
  let t ← env.readClock .since
  pure (millisecondsSince startedAt t)

def microseconds (n : Int) : Int := n * 1000

/-- `terminalOccurredAt` at `t`. -/
def occurredAt (startedAt : Time) (sequence : Int) (t : Time) : Time :=
  let minimum := startedAt + microseconds sequence
  if t.truncateMicro < minimum then minimum else t.truncateMicro

def terminalOccurredAt (startedAt : Time) (sequence : Int) : Program Time := do
  let t ← env.readClock .now
  pure (occurredAt startedAt sequence t)

def contextTerminal : Program (Option (PlatformErrorCode × EventType × InvocationStatus)) := do
  if (← env.readContext) = some .deadlineExceeded then
    pure (some (.timeout, .timedOut, .timedOut))
  else if (← env.readContext) = some .canceled then
    pure (some (.canceled, .canceled, .canceled))
  else pure none

def streamErrorCode (err : GoError) : Program PlatformErrorCode := do
  if err.is .interrupted then pure .a2aProtocol
  else if (← env.readContext) = some .deadlineExceeded ∨ err.is .deadlineExceeded then
    pure .timeout
  else if (← env.readContext) = some .canceled ∨ err.is .canceled then pure .canceled
  else pure (dispatchErrorCode err)

/-- A context error read twice is the same error, since it stays. -/
def streamWriteErrorCode (err : GoError) : Program PlatformErrorCode := do
  match ← env.readContext with
  | some c => env.streamErrorCode c.err
  | none =>
      pure (if dispatchErrorCode err = .agentResponseTooLarge then .agentResponseTooLarge
        else .dependency)

/-! ## Ledger events -/

/-- `appendInitialLedgerEventsMode`, with `child` for the child mode. -/
def appendInitialLedgerEventsMode (request : DispatchInvocationRequestV1) (startedAt : Time)
    (child : Bool) : List InvocationEventV03 → Program Bool
  | [] => pure true
  | event :: events => do
      if ← env.appendEvent false event then
        appendInitialLedgerEventsMode request startedAt child events
      else
        refuseInitial event
        pure false
where
  /-- The answer to an event the ledger refused. -/
  refuseInitial (event : InvocationEventV03) : Program Unit := do
    if ← closeInitial event then pure ()
    else respond (if child ∧ event.sequence = 0 then preResponse request.traceID .dependency
      else correlatedResponse request .dependency)
  /-- The terminal event of an invocation whose context is done; true
  when it is committed and answered. -/
  closeInitial (event : InvocationEventV03) : Program Bool := do
    if event.sequence > 0 then
      match ← env.contextTerminal with
      | none => pure false
      | some (code, eventType, status) =>
          let occurredAt ← env.terminalOccurredAt startedAt event.sequence
          let latency ← env.sinceMS startedAt
          match terminalLifecycleEvent request event.sequence eventType status occurredAt latency
              code with
          | .error _ => pure false
          | .ok terminal =>
              if ← env.appendEvent true terminal then
                respond (correlatedResponse request code)
                pure true
              else pure false
    else pure false

def createdEvent (request : DispatchInvocationRequestV1) (startedAt : Time) : InvocationEventV03 :=
  lifecycleEvent request 0 .created .pending startedAt

def routingEvent (request : DispatchInvocationRequestV1) (startedAt : Time) : InvocationEventV03 :=
  lifecycleEvent request 1 .routing .routing (startedAt + microseconds 1)

def startedEvent (request : DispatchInvocationRequestV1) (startedAt : Time) : InvocationEventV03 :=
  lifecycleEvent request 2 .started .running (startedAt + microseconds 2)

/-- A terminal event with a code under the grace context; false when it
cannot be built or is not committed. -/
def appendTerminal (request : DispatchInvocationRequestV1) (sequence : Int) (eventType : EventType)
    (status : InvocationStatus) (occurredAt : Time) (latency : Int) (code : PlatformErrorCode) :
    Program Bool :=
  match terminalLifecycleEvent request sequence eventType status occurredAt latency code with
  | .error _ => pure false
  | .ok event => env.appendEvent true event

def appendStreamingTerminal (request : DispatchInvocationRequestV1) (sequence : Int)
    (startedAt : Time) (latency : Int) (code : PlatformErrorCode) (eventType : EventType)
    (status : InvocationStatus) : Program Bool := do
  let occurredAt ← env.terminalOccurredAt startedAt sequence
  env.appendTerminal request sequence eventType status occurredAt latency code

/-! ## The JSON path -/

/-- The answer to an error whose terminal event was attempted. -/
def answerFailure (request : DispatchInvocationRequestV1) (code : PlatformErrorCode)
    (committed : Bool) : Program Unit :=
  respond (correlatedResponse request (if committed then code else .dependency))

/-- The agent's answer; a result that comes after the context is done is
the context's error. -/
def sendNonStreaming : Program (Except GoError Json.Bytes) := do
  Logged.say .sendNonStreaming
  match env.nonStreaming with
  | .error err => pure (.error err)
  | .ok result =>
      match ← env.readContext with
      | some c => pure (.error c.err)
      | none => pure (.ok result)

/-- After the started event: the agent is called and its outcome
recorded. -/
def callAgent (request : DispatchInvocationRequestV1) (startedAt : Time) : Program Unit := do
  let outcome ← env.sendNonStreaming
  let latency ← env.sinceMS startedAt
  let terminalAt ← env.terminalOccurredAt startedAt 3
  match outcome with
  | .error err =>
      let code := dispatchErrorCode err
      let (eventType, status) := outcomeType code
      let committed ← env.appendTerminal request 3 eventType status terminalAt latency code
      answerFailure request code committed
  | .ok result =>
      let event := { lifecycleEvent request 3 .succeeded .succeeded terminalAt with
        latencyMS := some latency }
      if ← env.appendEvent true event then respond (resultResponse request result)
      else respond (correlatedResponse request .dependency)

def dispatchNonStreamingWithLedger (request : DispatchInvocationRequestV1)
    (targetErr : Option GoError) : Program Unit := do
  let startedAt ← env.startedAt
  let child := request.parentInvocationID != ""
  match targetErr with
  | some err =>
      if ← env.appendInitialLedgerEventsMode request startedAt child
          [createdEvent request startedAt, routingEvent request startedAt] then
        let code := dispatchErrorCode err
        let terminalAt ← env.terminalOccurredAt startedAt 2
        let committed ← env.appendTerminal request 2 .failed .failed terminalAt 0 code
        answerFailure request code committed
      else pure ()
  | none =>
      if ← env.appendInitialLedgerEventsMode request startedAt child
          [createdEvent request startedAt, routingEvent request startedAt,
            startedEvent request startedAt] then
        env.callAgent request startedAt
      else pure ()

/-! ## Frames -/

def runtimeByteLimitMinimum : Int := 1

def runtimeByteLimitMaximum : Int := 2147483647

/-- `newResultStreamWriter`; `none` is its error. -/
def newResultStreamWriter : Option ResultStreamWriter :=
  if env.flusher ∧ runtimeByteLimitMinimum ≤ env.sseEventLimitBytes
      ∧ env.sseEventLimitBytes ≤ runtimeByteLimitMaximum then
    some ⟨env.sseEventLimitBytes, false⟩
  else none

/-- `resultStreamWriter.Write`. -/
def writeFrame (writer : ResultStreamWriter) (event : InvocationResultStreamEventV2) :
    Program (Option GoError × ResultStreamWriter) :=
  match writer.encode event with
  | .error err => do
      Logged.say (.refused event)
      pure (some err, writer)
  | .ok frame => do
      let failure ← Logged.ask (fun log => env.write log frame) (.frame event frame)
      pure (failure, { writer with committed := true })

/-! ## The streaming path -/

/-- A terminal event the validator has to accept before it is written. -/
def showTerminal (writer : ResultStreamWriter) (sequence : RuntimeResultStreamSequenceValidator)
    (event : InvocationResultStreamEventV2) (rejected : Program Unit) : Program Unit :=
  match sequence.accept event with
  | .error _ => rejected
  | .ok _ => do
      let (failure, _) ← env.writeFrame writer event
      if failure.isSome then cancel else pure ()

def finishStreamingFailureWithoutLedger (writer : ResultStreamWriter)
    (sequence : RuntimeResultStreamSequenceValidator) (request : DispatchInvocationRequestV1)
    (streamSequence : Int) (code : PlatformErrorCode) : Program Unit :=
  let (eventType, status) := streamFailureType code
  match streamFailureEvent request streamSequence eventType status code with
  | .error _ => cancel
  | .ok event => env.showTerminal writer sequence event cancel

def finishStreamingFailure (writer : ResultStreamWriter)
    (sequence : RuntimeResultStreamSequenceValidator) (request : DispatchInvocationRequestV1)
    (startedAt : Time) (streamSequence ledgerSequence : Int) (code : PlatformErrorCode) :
    Program Unit :=
  let (eventType, status) := streamFailureType code
  match streamFailureEvent request streamSequence eventType status code with
  | .error _ => cancel
  | .ok event => do
      let latency ← env.sinceMS startedAt
      if ← env.appendStreamingTerminal request ledgerSequence startedAt latency code
          eventType.eventType status then
        env.showTerminal writer sequence event cancel
      else
        env.finishStreamingFailureWithoutLedger writer sequence request streamSequence .dependency

/-- The end of the loop body for an event with a terminal type, after
its payload was delivered. -/
def reportTerminal (writer : ResultStreamWriter) (sequence : RuntimeResultStreamSequenceValidator)
    (request : DispatchInvocationRequestV1) (startedAt : Time)
    (streamSequence ledgerSequence : Int) (event : StreamEvent) : Program Unit := do
  let withoutLedger := env.finishStreamingFailureWithoutLedger writer sequence request
    streamSequence
  let failure := env.finishStreamingFailure writer sequence request startedAt streamSequence
    ledgerSequence
  match ← env.readContext with
  | some c => do
      let code ← env.streamErrorCode c.err
      failure code
  | none =>
      let (terminalType, terminalStatus) := streamTerminalType event.terminalType
        event.terminalStatus
      if terminalType = .completed then
        let terminal := resultStreamEvent request streamSequence terminalType terminalStatus
        let occurredAt ← env.terminalOccurredAt startedAt ledgerSequence
        let latency ← env.sinceMS startedAt
        let succeeded := { lifecycleEvent request ledgerSequence .succeeded .succeeded occurredAt
          with latencyMS := some latency }
        if ← env.appendEvent true succeeded then
          env.showTerminal writer sequence terminal (withoutLedger .a2aProtocol)
        else withoutLedger .dependency
      else if event.errorCode = .other "" then failure .a2aProtocol
      else
        match streamFailureEvent request streamSequence terminalType terminalStatus
            event.errorCode with
        | .error _ => withoutLedger .internal
        | .ok terminal => do
            let latency ← env.sinceMS startedAt
            if ← env.appendStreamingTerminal request ledgerSequence startedAt latency
                event.errorCode terminalType.eventType terminalStatus then
              env.showTerminal writer sequence terminal (withoutLedger .a2aProtocol)
            else withoutLedger .dependency

/-- The ledger's record of a chunk: its index and size, not its text. -/
def chunkLedgerEvent (request : DispatchInvocationRequestV1) (startedAt : Time)
    (ledgerSequence chunkIndex : Int) (payload : Json.Bytes) : InvocationEventV03 :=
  { lifecycleEvent request ledgerSequence .stream .running
      (startedAt + microseconds ledgerSequence) with
    chunkIndex := some chunkIndex
    chunkBytes := some payload.length }

/-- The loop over the agent's stream. -/
def relay (request : DispatchInvocationRequestV1) (startedAt : Time) :
    ResultStreamWriter → RuntimeResultStreamSequenceValidator → Int → Int → Int →
    List (Except GoError StreamEvent) → Program Unit
  | writer, sequence, streamSequence, _, ledgerSequence, [] => do
      match ← env.readContext with
      | some c =>
          let code ← env.streamErrorCode c.err
          env.finishStreamingFailure writer sequence request startedAt streamSequence
            ledgerSequence code
      | none =>
          env.finishStreamingFailure writer sequence request startedAt streamSequence
            ledgerSequence .a2aProtocol
  | writer, sequence, streamSequence, _, ledgerSequence, .error err :: _ => do
      let code ← env.streamErrorCode err
      env.finishStreamingFailure writer sequence request startedAt streamSequence ledgerSequence
        code
  | writer, sequence, streamSequence, chunkIndex, ledgerSequence, .ok event :: rest =>
      let failure := env.finishStreamingFailure writer sequence request startedAt streamSequence
      let chunk := chunkEvent request streamSequence chunkIndex event.payload
      if event.payload = [] ∨ Json.valid event.payload = false then
        failure ledgerSequence .a2aProtocol
      else if validateInvocationResultStreamEventV2 chunk ≠ .ok () then
        failure ledgerSequence .a2aProtocol
      else do
        if ← env.appendEvent false
            (chunkLedgerEvent request startedAt ledgerSequence chunkIndex event.payload) then
          match sequence.accept chunk with
          | .error _ => failure (ledgerSequence + 1) .a2aProtocol
          | .ok sequence => do
              match ← env.writeFrame writer chunk with
              | (some err, writer) =>
                  let code ← env.streamWriteErrorCode err
                  env.finishStreamingFailure writer sequence request startedAt
                    (streamSequence + 1) (ledgerSequence + 1) code
              | (none, writer) =>
                  if event.terminalType = .other "" then
                    relay request startedAt writer sequence (streamSequence + 1) (chunkIndex + 1)
                      (ledgerSequence + 1) rest
                  else
                    env.reportTerminal writer sequence request startedAt (streamSequence + 1)
                      (ledgerSequence + 1) event
        else
          match ← env.contextTerminal with
          | some (code, _, _) => failure ledgerSequence code
          | none =>
              env.finishStreamingFailureWithoutLedger writer sequence request streamSequence
                .dependency

/-- After the initial events: the stream is accepted, and relayed. -/
def acceptStream (request : DispatchInvocationRequestV1) (startedAt : Time) : Program Unit :=
  match newRuntimeResultStreamSequenceValidator request.invocationID request.rootTaskID
      request.traceID with
  | .error _ => respond (correlatedResponse request .internal)
  | .ok sequence =>
      match env.newResultStreamWriter with
      | none => do
          let _ ← env.appendStreamingTerminal request 3 startedAt 0 .dependency .failed .failed
          respond (correlatedResponse request .dependency)
      | some writer =>
          match sequence.accept (acceptedEvent request) with
          | .error _ => respond (correlatedResponse request .internal)
          | .ok sequence => do
              match ← env.writeFrame writer (acceptedEvent request) with
              | (some err, writer) =>
                  let code ← env.streamWriteErrorCode err
                  if writer.committed then
                    env.finishStreamingFailure writer sequence request startedAt 1 3 code
                  else
                    let committed ← env.appendStreamingTerminal request 3 startedAt 0 code .failed
                      .failed
                    answerFailure request code committed
              | (none, writer) => do
                  Logged.say .sendStreaming
                  env.relay request startedAt writer sequence 1 0 3 env.stream

def dispatchStreamingWithLedger (request : DispatchInvocationRequestV1) : Program Unit := do
  let startedAt ← env.startedAt
  if ← env.appendInitialLedgerEventsMode request startedAt (request.parentInvocationID != "")
      [createdEvent request startedAt, routingEvent request startedAt,
        startedEvent request startedAt] then
    env.acceptStream request startedAt
  else pure ()

end Env

/-! ## Concrete runs -/

def sampleRequest : DispatchInvocationRequestV1 where
  invocationID := "inv-1"
  rootTaskID := "task-1"
  parentInvocationID := ""
  traceID := "trace-1"
  caller := ⟨.user, "user-1"⟩
  workspaceID := "workspace-1"
  targetAgentID := "agent-1"
  agentCardVersion := "1.0.0"
  agentReleaseID := ""
  agentCardDigest := ""
  capability := "echo"
  input := Json.utf8 "\x7b\x7d"
  stream := true

/-- A standing clock, a context that is never done, a ledger that takes
everything and a client that reads everything. -/
def Env.calm (stream : List (Except GoError StreamEvent)) : Env where
  now _ := 63900000000000000000
  contextErr _ := none
  done _ _ _ h := absurd h (by simp)
  append _ _ _ := true
  write _ _ := none
  flusher := true
  sseEventLimitBytes := 65536
  nonStreaming := .ok (Json.utf8 "1")
  stream := stream

end Dispatch

end Nekiro
