import Mathlib.Data.Nat.Digits.Defs
import Nekiro.ErrorTree
import Nekiro.ResultStream
import Nekiro.RuntimeSequence
import Nekiro.Sha256

/-!
# What a dispatch builds

The dispatch handler of the router, as far as it computes without its
surroundings: the checks of a request, the lifecycle events and stream
events it builds, the codes it gives to errors and the responses it
sends.

The request is the context of the invocation and the agent's input, so
every event is the request's context with its own fields
(`lifecycleEvent`). The lemmas say when a built event is valid.
-/

namespace Nekiro

open Guard

/-! ## Requests -/

/-- `DispatchInvocationRequestV1`: the fields of the invocation context
and the input. -/
structure DispatchInvocationRequestV1 extends InvocationContext where
  input : Json.Bytes
  stream : Bool
deriving Repr, DecidableEq

/-- `validIdentifier`. A character outside ASCII has a byte outside the
set. -/
def validIdentifier (value : String) : Bool :=
  decide (1 ≤ value.utf8ByteSize) && decide (value.utf8ByteSize ≤ 128)
    && value.toList.zipIdx.all fun (c, index) =>
      isIdentifierTail c && (decide (0 < index) || isAlphanumeric c)

/-- `json.Unmarshal` into a map succeeds and the map is not nil. -/
def isJSONObject (input : Json.Bytes) : Bool :=
  (Json.parse Json.maxNestingDepth input).any fun lexemes =>
    lexemes.head?.any fun l => l.token == .beginObject

section Validate

variable [Semver]

/-- The checks both kinds of dispatch make of the identifiers, the
version, the provenance and the trace. -/
def validateDispatchContext (subject : String) (value : DispatchInvocationRequestV1) :
    Except ContractError Unit := do
  require (∀ identifier ∈ [value.invocationID, value.rootTaskID, value.workspaceID,
      value.targetAgentID, value.capability, value.caller.id], validIdentifier identifier = true)
    (.message (subject ++ " identifier is invalid"))
  require (Semver.strictNewVersion value.agentCardVersion = true)
    (.message (subject ++ " Agent Card version is invalid"))
  validateInvocationReleaseProvenance value.agentReleaseID value.agentCardDigest
  parseTraceID value.traceID

def validateDispatch (value : DispatchInvocationRequestV1) : Except ContractError Unit := do
  require (value.parentInvocationID = "")
    (.message "root dispatch must not carry parent invocation id")
  validateDispatchContext "dispatch" value
  require (value.caller.type = .user) (.message "dispatch caller is invalid")
  require (isJSONObject value.input = true) (.message "dispatch input must be object")

def validateChildDispatch (value : DispatchInvocationRequestV1) : Except ContractError Unit := do
  validateDispatchContext "child dispatch" value
  require (value.caller.type = .agent) (.message "child dispatch caller must be agent")
  require (validIdentifier value.parentInvocationID = true)
    (.message "child dispatch parent invocation id is invalid")
  require (isJSONObject value.input = true) (.message "child dispatch input must be object")

/-- The request has passed the check of its path. -/
def DispatchInvocationRequestV1.Validated (value : DispatchInvocationRequestV1) : Prop :=
  validateDispatch value = .ok () ∨ validateChildDispatch value = .ok ()

end Validate

theorem length_le_utf8Len : ∀ cs : List Char, cs.length ≤ String.utf8Len cs
  | [] => Nat.le_refl 0
  | c :: cs => by
      rw [String.utf8Len_cons, List.length_cons]
      exact Nat.add_le_add (length_le_utf8Len cs) c.utf8Size_pos

/-- The loop of the handler and the pattern of the contracts agree. -/
theorem safeIdentifier_of_validIdentifier {value : String} (h : validIdentifier value = true) :
    safeIdentifier value := by
  simp only [validIdentifier, Bool.and_eq_true, decide_eq_true_eq] at h
  obtain ⟨⟨h1, h128⟩, hall⟩ := h
  have hlen : value.toList.length ≤ 128 := by
    have := length_le_utf8Len value.toList
    rw [← String.utf8ByteSize_ofList, String.ofList_toList] at this
    omega
  rw [safeIdentifier_iff, Regex.matchText, safeIdentifierPattern, Regex.accepts_seq_chars]
  cases hvalue : value.toList with
  | nil =>
      rw [String.toList_eq_nil_iff.mp hvalue] at h1
      exact absurd h1 (by decide)
  | cons c cs =>
      rw [hvalue] at hall hlen
      rw [List.zipIdx_cons, List.all_cons, Bool.and_eq_true] at hall
      have hc : isAlphanumeric c = true := by
        have := hall.1
        simp_all
      have htail : ((Regex.chars isIdentifierTail).upTo 127).accepts cs = true := by
        refine (Regex.accepts_upTo_chars isIdentifierTail 127 cs).mpr ⟨?_, fun d hd => ?_⟩
        · rw [List.length_cons] at hlen
          omega
        · rw [← List.zipIdx_map_fst 1 cs] at hd
          obtain ⟨x, hx, rfl⟩ := List.mem_map.mp hd
          exact (Bool.and_eq_true_iff.mp (List.all_eq_true.mp hall.2 x hx)).1
      simp [hc, htail]

/-- The three identifiers an error of the request names are well
formed. -/
@[mk_iff]
structure DispatchInvocationRequestV1.Traceable (request : DispatchInvocationRequestV1) : Prop where
  traceID : safeIdentifier request.traceID
  invocationID : safeIdentifier request.invocationID
  rootTaskID : safeIdentifier request.rootTaskID

variable {request : DispatchInvocationRequestV1} {code : PlatformErrorCode}

/-- Both paths check them. -/
theorem DispatchInvocationRequestV1.Validated.traceable [Semver] (h : request.Validated) :
    request.Traceable := by
  obtain ⟨subject, hctx⟩ : ∃ subject, validateDispatchContext subject request = .ok () := by
    rcases h with h | h
    · simp only [validateDispatch, check_bind_ok_iff] at h
      exact ⟨_, h.2.1⟩
    · simp only [validateChildDispatch, check_bind_ok_iff] at h
      exact ⟨_, h.1⟩
  simp only [validateDispatchContext, check_bind_ok_iff, require_ok_iff, List.forall_mem_cons,
    parseTraceID] at hctx
  obtain ⟨⟨hinvocation, hroot, -⟩, -, -, htrace⟩ := hctx
  exact ⟨safeIdentifier_iff.mpr htrace, safeIdentifier_of_validIdentifier hinvocation,
    safeIdentifier_of_validIdentifier hroot⟩

/-! ## Errors and their codes -/

inductive Sentinel where
  | canceled
  | deadlineExceeded
  | interrupted
  | notFound
  | ledgerDependency
deriving Repr, DecidableEq

abbrev GoError := ErrorTree Sentinel PlatformErrorCode

/-- The error of a context that is done. -/
inductive ContextError where
  | canceled
  | deadlineExceeded
deriving Repr, DecidableEq

def ContextError.err : ContextError → GoError
  | .canceled => .sentinel .canceled
  | .deadlineExceeded => .sentinel .deadlineExceeded

/-- The terminal event of an invocation whose context is done. -/
def ContextError.terminal : ContextError → PlatformErrorCode × EventType × InvocationStatus
  | .deadlineExceeded => (.timeout, .timedOut, .timedOut)
  | .canceled => (.canceled, .canceled, .canceled)

def dispatchErrorCode (err : GoError) : PlatformErrorCode :=
  if err.is .deadlineExceeded then .timeout
  else match err.code? with
    | some code => code
    | none => .dependency

/-- `streamErrorCode`, for a context that reads the same twice. -/
def streamCode (context : Option ContextError) (err : GoError) : PlatformErrorCode :=
  if err.is .interrupted then .a2aProtocol
  else if context = some .deadlineExceeded ∨ err.is .deadlineExceeded then .timeout
  else if context = some .canceled ∨ err.is .canceled then .canceled
  else dispatchErrorCode err

/-- The classification of a JSON outcome. -/
def outcomeType (code : PlatformErrorCode) : EventType × InvocationStatus :=
  match code with
  | .timeout => (.timedOut, .timedOut)
  | .canceled => (.canceled, .canceled)
  | _ => (.failed, .failed)

def streamFailureType (code : PlatformErrorCode) : ResultStreamEventType × InvocationStatus :=
  match code with
  | .timeout => (.timedOut, .timedOut)
  | .canceled => (.canceled, .canceled)
  | _ => (.failed, .failed)

def streamTerminalType (eventType : ResultStreamEventType) (status : InvocationStatus) :
    ResultStreamEventType × InvocationStatus :=
  match eventType with
  | .completed => (.completed, .succeeded)
  | .canceled => (.canceled, .canceled)
  | .timedOut => (.timedOut, .timedOut)
  | _ => if status = .canceled then (.canceled, status) else (.failed, .failed)

/-- The HTTP status of a code. -/
def errorStatus : PlatformErrorCode → Nat
  | .validationError => 400
  | .conflict | .canceled => 409
  | .unauthenticated => 401
  | .forbidden | .capabilityNotAllowed | .installationDisabled | .agentDisabled
  | .agentReleaseUnpublished | .agentReleaseSuspended | .agentReleaseRevoked => 403
  | .agentNotInstalled | .notFound => 404
  | .notAcceptable => 406
  | .agentAuthUnsupported | .agentResponseTooLarge | .agentExecutionFailed | .a2aProtocol => 502
  | .payloadTooLarge => 413
  | .timeout => 504
  | .internal => 500
  | .routeNotFound | .agentUnavailable | .dependency | .other _ => 503

/-- The code is one of Platform Error v4. -/
def PlatformErrorCode.known (code : PlatformErrorCode) : Bool :=
  (platformErrorV4Messages code).isSome

theorem ContextError.terminal_known (c : ContextError) : c.terminal.1.known = true := by
  cases c <;> rfl

/-- The error the request's correlation gives to a code. -/
def DispatchInvocationRequestV1.platformError (request : DispatchInvocationRequestV1)
    (code : PlatformErrorCode) : CorrelatedPlatformErrorV4 :=
  ⟨code, (platformErrorV4Messages code).getD "", request.traceID, request.invocationID,
    request.rootTaskID⟩

theorem DispatchInvocationRequestV1.Traceable.platformError_schema (h : request.Traceable)
    (hcode : code.known = true) : (request.platformError code).Schema where
  message := by
    obtain ⟨message, hm⟩ := Option.isSome_iff_exists.mp hcode
    simp [platformError, hm]
  traceID := h.traceID
  invocationID := h.invocationID
  rootTaskID := h.rootTaskID

theorem DispatchInvocationRequestV1.Traceable.newCorrelatedPlatformErrorV4 (h : request.Traceable)
    (hcode : code.known = true) :
    newCorrelatedPlatformErrorV4 code request.traceID request.invocationID request.rootTaskID
      = .ok (request.platformError code) :=
  newCorrelatedPlatformErrorV4_ok_iff.mpr ⟨h.platformError_schema hcode, rfl, rfl, rfl, rfl⟩

theorem newCorrelatedPlatformErrorV4_unknown (hcode : code.known = false)
    (traceID invocationID rootTaskID : String) :
    ∃ err, newCorrelatedPlatformErrorV4 code traceID invocationID rootTaskID = .error err := by
  have hm : platformErrorV4Messages code = none := by simpa [PlatformErrorCode.known] using hcode
  unfold newCorrelatedPlatformErrorV4
  rw [hm]
  exact ⟨_, rfl⟩

/-! ## Lifecycle events -/

def lifecycleEventID (invocationID : String) (sequence : Int) (eventType : EventType) : String :=
  let sum := Sha256.sum (Json.utf8
    (invocationID ++ ":" ++ toString sequence ++ ":" ++ eventType.text))
  "evt-" ++ Hex.encode (sum.take 8) ++ "-" ++ toString sequence

def lifecycleEvent (request : DispatchInvocationRequestV1) (sequence : Int) (eventType : EventType)
    (status : InvocationStatus) (occurredAt : Time) : InvocationEventV03 where
  toInvocationContext := request.toInvocationContext
  schemaVersion := "0.3"
  eventID := lifecycleEventID request.invocationID sequence eventType
  sequence := sequence
  occurredAt := Rfc3339.format occurredAt
  type := eventType
  status := status
  chunkIndex := none
  chunkBytes := none
  latencyMS := none
  error := none

def terminalLifecycleEvent (request : DispatchInvocationRequestV1) (sequence : Int)
    (eventType : EventType) (status : InvocationStatus) (occurredAt : Time) (latencyMS : Int)
    (code : PlatformErrorCode) : Except ContractError InvocationEventV03 := do
  let platformError ← newCorrelatedPlatformErrorV4 code request.traceID request.invocationID
    request.rootTaskID
  pure { lifecycleEvent request sequence eventType status occurredAt with
    latencyMS := some latencyMS
    error := some platformError }

/-- The event `terminalLifecycleEvent` builds. -/
def terminalEvent (request : DispatchInvocationRequestV1) (sequence : Int) (eventType : EventType)
    (status : InvocationStatus) (occurredAt : Time) (latencyMS : Int) (code : PlatformErrorCode) :
    InvocationEventV03 :=
  { lifecycleEvent request sequence eventType status occurredAt with
    latencyMS := some latencyMS
    error := some (request.platformError code) }

theorem terminalLifecycleEvent_eq (h : request.Traceable) (hcode : code.known = true)
    (sequence : Int) (eventType : EventType) (status : InvocationStatus) (occurredAt : Time)
    (latencyMS : Int) :
    terminalLifecycleEvent request sequence eventType status occurredAt latencyMS code
      = .ok (terminalEvent request sequence eventType status occurredAt latencyMS code) := by
  unfold terminalLifecycleEvent
  rw [h.newCorrelatedPlatformErrorV4 hcode]
  rfl

theorem terminalLifecycleEvent_unknown (hcode : code.known = false)
    (request : DispatchInvocationRequestV1) (sequence : Int) (eventType : EventType)
    (status : InvocationStatus) (occurredAt : Time) (latencyMS : Int) :
    ∃ err, terminalLifecycleEvent request sequence eventType status occurredAt latencyMS code
      = .error err := by
  obtain ⟨err, herr⟩ := newCorrelatedPlatformErrorV4_unknown hcode request.traceID
    request.invocationID request.rootTaskID
  exact ⟨err, by unfold terminalLifecycleEvent; rw [herr]; rfl⟩

/-! ## Stream events -/

/-- An event of the request's stream without chunk and error. -/
def resultStreamEvent (request : DispatchInvocationRequestV1) (sequence : Int)
    (eventType : ResultStreamEventType) (status : InvocationStatus) :
    InvocationResultStreamEventV2 where
  schemaVersion := "2"
  sequence := sequence
  type := eventType
  status := status
  invocationID := request.invocationID
  rootTaskID := request.rootTaskID
  traceID := request.traceID
  chunkIndex := none
  chunk := []
  error := none

def acceptedEvent (request : DispatchInvocationRequestV1) : InvocationResultStreamEventV2 :=
  resultStreamEvent request 0 .accepted .pending

def chunkEvent (request : DispatchInvocationRequestV1) (sequence chunkIndex : Int)
    (payload : Json.Bytes) : InvocationResultStreamEventV2 :=
  { resultStreamEvent request sequence .chunk .running with
    chunkIndex := some chunkIndex
    chunk := payload }

def streamFailureEvent (request : DispatchInvocationRequestV1) (sequence : Int)
    (eventType : ResultStreamEventType) (status : InvocationStatus) (code : PlatformErrorCode) :
    Except ContractError InvocationResultStreamEventV2 := do
  let platformError ← newCorrelatedPlatformErrorV4 code request.traceID request.invocationID
    request.rootTaskID
  pure { resultStreamEvent request sequence eventType status with error := some platformError }

/-- The event `streamFailureEvent` builds. -/
def failureEvent (request : DispatchInvocationRequestV1) (sequence : Int)
    (outcome : ResultStreamEventType × InvocationStatus) (code : PlatformErrorCode) :
    InvocationResultStreamEventV2 :=
  { resultStreamEvent request sequence outcome.1 outcome.2 with
    error := some (request.platformError code) }

theorem streamFailureEvent_eq (h : request.Traceable) (hcode : code.known = true) (sequence : Int)
    (outcome : ResultStreamEventType × InvocationStatus) :
    streamFailureEvent request sequence outcome.1 outcome.2 code
      = .ok (failureEvent request sequence outcome code) := by
  unfold streamFailureEvent
  rw [h.newCorrelatedPlatformErrorV4 hcode]
  rfl

theorem streamFailureEvent_unknown (hcode : code.known = false)
    (request : DispatchInvocationRequestV1) (sequence : Int) (eventType : ResultStreamEventType)
    (status : InvocationStatus) :
    ∃ err, streamFailureEvent request sequence eventType status code = .error err := by
  obtain ⟨err, herr⟩ := newCorrelatedPlatformErrorV4_unknown hcode request.traceID
    request.invocationID request.rootTaskID
  exact ⟨err, by unfold streamFailureEvent; rw [herr]; rfl⟩

/-! ### When they are valid -/

theorem validateInvocationResultStreamEventV2_ok_iff {e : InvocationResultStreamEventV2} :
    validateInvocationResultStreamEventV2 e = .ok () ↔ e.Schema ∧
      ∀ err ∈ e.error, err.invocationID = e.invocationID ∧ err.rootTaskID = e.rootTaskID
        ∧ err.traceID = e.traceID := by
  unfold validateInvocationResultStreamEventV2 validateRuntimeNestedErrorCorrelation
  rw [check_bind_ok_iff, require_ok_iff]
  cases e.error with
  | none => simp [pure, Except.pure]
  | some err => simp

theorem validate_acceptedEvent (h : request.Traceable) :
    validateInvocationResultStreamEventV2 (acceptedEvent request) = .ok () :=
  validateInvocationResultStreamEventV2_ok_iff.mpr
    ⟨⟨.inl rfl, rfl, Int.le_refl 0, h.invocationID, h.rootTaskID, h.traceID, nofun, nofun, rfl⟩,
      nofun⟩

theorem validate_completedEvent (h : request.Traceable) {sequence : Int} (hseq : 0 ≤ sequence) :
    validateInvocationResultStreamEventV2
      (resultStreamEvent request sequence .completed .succeeded) = .ok () :=
  validateInvocationResultStreamEventV2_ok_iff.mpr
    ⟨⟨.inl rfl, rfl, hseq, h.invocationID, h.rootTaskID, h.traceID, nofun, nofun, rfl⟩, nofun⟩

/-- A failure is valid when its type and status are those of its code. -/
theorem validate_failureEvent (h : request.Traceable) (hcode : code.known = true) {sequence : Int}
    (hseq : 0 ≤ sequence) :
    validateInvocationResultStreamEventV2
      (failureEvent request sequence (streamFailureType code) code) = .ok () := by
  refine validateInvocationResultStreamEventV2_ok_iff.mpr ⟨⟨.inl rfl, rfl, hseq, h.invocationID,
    h.rootTaskID, h.traceID, nofun, ?_, ?_⟩, ?_⟩
  · rintro err ⟨⟩
    exact h.platformError_schema hcode
  · cases code <;> rfl
  · rintro err ⟨⟩
    exact ⟨rfl, rfl, rfl⟩

/-! ## Responses -/

structure PreCorrelationPlatformErrorV4 where
  code : PlatformErrorCode
  message : String
  traceID : String
deriving Repr, DecidableEq

/-- `NewPreCorrelationPlatformErrorV4`. -/
def newPreCorrelationPlatformErrorV4 (code : PlatformErrorCode) (traceID : String) :
    Except ContractError PreCorrelationPlatformErrorV4 := do
  match platformErrorV4Messages code with
  | none => throw (.message ("unknown Platform Error v4 code " ++ code.text.quote))
  | some message =>
      parseTraceID traceID
      pure ⟨code, message, traceID⟩

/-- What the client of a JSON path receives. -/
inductive Response where
  /-- The body of an `InvocationResult` with status 200. -/
  | result (invocationID rootTaskID traceID : String) (result : Json.Bytes)
  | correlated (status : Nat) (error : CorrelatedPlatformErrorV4)
  | preCorrelation (status : Nat) (error : PreCorrelationPlatformErrorV4)
  /-- `http.Error` with status 500 and no code. -/
  | internalServerError
deriving Repr, DecidableEq

def correlatedResponse (request : DispatchInvocationRequestV1) (code : PlatformErrorCode) :
    Response :=
  match newCorrelatedPlatformErrorV4 code request.traceID request.invocationID
      request.rootTaskID with
  | .ok error => .correlated (errorStatus code) error
  | .error _ => .internalServerError

def preResponse (traceID : String) (code : PlatformErrorCode) : Response :=
  match newPreCorrelationPlatformErrorV4 code traceID with
  | .ok error => .preCorrelation (errorStatus code) error
  | .error _ => .internalServerError

theorem correlatedResponse_eq (h : request.Traceable) (hcode : code.known = true) :
    correlatedResponse request code = .correlated (errorStatus code)
      (request.platformError code) := by
  unfold correlatedResponse
  rw [h.newCorrelatedPlatformErrorV4 hcode]

theorem preResponse_eq (h : request.Traceable) (hcode : code.known = true) :
    preResponse request.traceID code = .preCorrelation (errorStatus code)
      ⟨code, (platformErrorV4Messages code).getD "", request.traceID⟩ := by
  obtain ⟨message, hm⟩ := Option.isSome_iff_exists.mp hcode
  have htrace : parseTraceID request.traceID = .ok () :=
    require_ok_iff.mpr (safeIdentifier_iff.mp h.traceID)
  unfold preResponse newPreCorrelationPlatformErrorV4
  rw [hm]
  dsimp only
  rw [htrace]
  rfl

def resultResponse (request : DispatchInvocationRequestV1) (result : Json.Bytes) : Response :=
  .result request.invocationID request.rootTaskID request.traceID result

end Nekiro
