import Mathlib.Tactic.MkIffOfInductiveProp
import Nekiro.Guard
import Nekiro.Hex
import Nekiro.Regex
import Nekiro.Rfc3339

/-!
# Runtime contracts

The invocation contracts of `contracts/`: Platform Error v4, Invocation
Event v0.3 and the checks `runtime_contracts_validation.go` adds to
their schemas.

Go strings that carry an enumeration become inductive types with an
`other` constructor for every text outside it, so an event of the model
is as arbitrary as the Go value. A schema is a structure of
propositions, one field per keyword the schema states, and is
decidable. Text is valid UTF-8 here; the identifier patterns admit
ASCII only.
-/

namespace Nekiro

open Guard

/-- The version parser of `github.com/Masterminds/semver`, which the
contracts call and do not define: whether `StrictNewVersion` succeeds. -/
class Semver where
  strictNewVersion : String → Bool

/-- The parser that accepts the listed versions only, for concrete runs. -/
@[reducible] def Semver.only (versions : List String) : Semver := ⟨fun v => versions.contains v⟩

/-! ## Identifiers and versions -/

def isAlphanumeric (c : Char) : Bool :=
  ('A' ≤ c && c ≤ 'Z') || ('a' ≤ c && c ≤ 'z') || ('0' ≤ c && c ≤ '9')

def isIdentifierTail (c : Char) : Bool :=
  isAlphanumeric c || c == '.' || c == '_' || c == ':' || c == '-'

/-- `^[A-Za-z0-9](?:[A-Za-z0-9._:-]{0,127})$`. -/
def safeIdentifierPattern : Regex :=
  .seq (.chars isAlphanumeric) (.upTo (.chars isIdentifierTail) 127)

/-- The schema definition `safeIdentifier`. -/
def safeIdentifier (s : String) : Prop :=
  1 ≤ s.length ∧ s.length ≤ 128 ∧ safeIdentifierPattern.matchText s = true

instance (s : String) : Decidable (safeIdentifier s) :=
  inferInstanceAs (Decidable (_ ∧ _ ∧ _))

/-- The pattern alone bounds the length. -/
theorem length_of_matchText {s : String} (h : safeIdentifierPattern.matchText s = true) :
    1 ≤ s.length ∧ s.length ≤ 128 := by
  rw [← String.length_toList]
  unfold Regex.matchText safeIdentifierPattern at h
  rw [Regex.accepts_seq_chars] at h
  cases hs : s.toList with
  | nil => simp [hs] at h
  | cons c cs =>
      rw [hs] at h
      have := (Regex.accepts_upTo_chars isIdentifierTail 127 cs).mp (by simp_all)
      simp only [List.length_cons]
      omega

theorem safeIdentifier_iff {s : String} :
    safeIdentifier s ↔ safeIdentifierPattern.matchText s = true :=
  ⟨fun h => h.2.2, fun h => ⟨(length_of_matchText h).1, (length_of_matchText h).2, h⟩⟩

theorem safeIdentifier_ne_empty {s : String} (h : safeIdentifier s) : s ≠ "" := by
  rintro rfl
  exact absurd h.1 (by decide)

def isDigit (c : Char) : Bool := '0' ≤ c && c ≤ '9'

def isSemverChar (c : Char) : Bool := isAlphanumeric c || c == '-'

namespace SemverPattern

open Regex

/-- `0|[1-9][0-9]*`. -/
def numeric : Regex :=
  alt (char '0') (seq (chars fun c => '1' ≤ c && c ≤ '9') (star (chars isDigit)))

/-- `0|[1-9][0-9]*|[0-9]*[A-Za-z-][0-9A-Za-z-]*`. -/
def prerelease : Regex :=
  alt numeric (seq (star (chars isDigit))
    (seq (chars fun c => isSemverChar c && !isDigit c) (star (chars isSemverChar))))

def build : Regex := plus (chars isSemverChar)

/-- A dot-separated list of `r`. -/
def dotted (r : Regex) : Regex := seq r (star (seq (char '.') r))

end SemverPattern

/-- The pattern of the schema definition `semver`. -/
def semverPattern : Regex :=
  open SemverPattern Regex in
  seq numeric (seq (char '.') (seq numeric (seq (char '.') (seq numeric
    (seq (opt (seq (char '-') (dotted prerelease)))
      (opt (seq (char '+') (dotted build))))))))

section Contracts

variable [Semver]

/-- The schema definition `semver`: the pattern and the registered
format. -/
def semverText (s : String) : Prop :=
  Semver.strictNewVersion s = true ∧ semverPattern.matchText s = true

instance (s : String) : Decidable (semverText s) := inferInstanceAs (Decidable (_ ∧ _))

end Contracts

/-- What a contract check reports. `schema` is the library's report of a
schema violation, `message` an error with that text, the rest are the
sentinel errors. -/
inductive ContractError where
  | schema
  | message (text : String)
  | sequenceTerminal
  | streamInterrupted
  | streamClosed
deriving Repr, DecidableEq

def validateSafeContractIdentifier (name value : String) : Except ContractError Unit :=
  require (safeIdentifierPattern.matchText value = true) (.message ("invalid " ++ name))

def parseTraceID (value : String) : Except ContractError Unit :=
  require (safeIdentifierPattern.matchText value = true) (.message "invalid trace id")

/-! ## Platform Error v4 -/

inductive PlatformErrorCode where
  | validationError
  | unauthenticated
  | forbidden
  | notFound
  | conflict
  | notAcceptable
  | payloadTooLarge
  | agentNotInstalled
  | installationDisabled
  | agentDisabled
  | agentReleaseUnpublished
  | agentReleaseSuspended
  | agentReleaseRevoked
  | capabilityNotAllowed
  | routeNotFound
  | agentAuthUnsupported
  | agentResponseTooLarge
  | a2aProtocol
  | agentUnavailable
  | agentExecutionFailed
  | dependency
  | timeout
  | canceled
  | internal
  | other (text : String)
deriving Repr, DecidableEq

def PlatformErrorCode.text : PlatformErrorCode → String
  | .validationError => "VALIDATION_ERROR"
  | .unauthenticated => "UNAUTHENTICATED"
  | .forbidden => "FORBIDDEN"
  | .notFound => "NOT_FOUND"
  | .conflict => "CONFLICT"
  | .notAcceptable => "NOT_ACCEPTABLE"
  | .payloadTooLarge => "PAYLOAD_TOO_LARGE"
  | .agentNotInstalled => "AGENT_NOT_INSTALLED"
  | .installationDisabled => "INSTALLATION_DISABLED"
  | .agentDisabled => "AGENT_DISABLED"
  | .agentReleaseUnpublished => "AGENT_RELEASE_UNPUBLISHED"
  | .agentReleaseSuspended => "AGENT_RELEASE_SUSPENDED"
  | .agentReleaseRevoked => "AGENT_RELEASE_REVOKED"
  | .capabilityNotAllowed => "CAPABILITY_NOT_ALLOWED"
  | .routeNotFound => "ROUTE_NOT_FOUND"
  | .agentAuthUnsupported => "AGENT_AUTH_UNSUPPORTED"
  | .agentResponseTooLarge => "AGENT_RESPONSE_TOO_LARGE"
  | .a2aProtocol => "A2A_PROTOCOL_ERROR"
  | .agentUnavailable => "AGENT_UNAVAILABLE"
  | .agentExecutionFailed => "AGENT_EXECUTION_FAILED"
  | .dependency => "DEPENDENCY_ERROR"
  | .timeout => "TIMEOUT"
  | .canceled => "CANCELED"
  | .internal => "INTERNAL_ERROR"
  | .other text => text

/-- The table `platformErrorV4Messages`; the schema's `messageRules` are
the same table. -/
def platformErrorV4Messages : PlatformErrorCode → Option String
  | .validationError => some "The request is invalid."
  | .unauthenticated => some "Authentication is required."
  | .forbidden => some "The requested operation is not allowed."
  | .notFound => some "The requested resource was not found."
  | .conflict => some "The requested operation conflicts with current state."
  | .notAcceptable => some "The requested result mode is not acceptable."
  | .payloadTooLarge => some "The payload is too large."
  | .agentNotInstalled => some "The Agent is not installed in this Workspace."
  | .installationDisabled => some "The Agent installation is disabled."
  | .agentDisabled => some "The Agent version is disabled."
  | .agentReleaseUnpublished => some "The Agent release is not published."
  | .agentReleaseSuspended => some "The Agent release is suspended."
  | .agentReleaseRevoked => some "The Agent release is revoked."
  | .capabilityNotAllowed => some "The requested capability is not allowed."
  | .routeNotFound => some "No route is available for the Agent."
  | .agentAuthUnsupported => some "The Agent authentication type is not supported for invocation."
  | .agentResponseTooLarge => some "The Agent response is too large."
  | .a2aProtocol => some "The Agent returned an invalid A2A response."
  | .agentUnavailable => some "The Agent is unavailable."
  | .agentExecutionFailed => some "The Agent failed to complete the invocation."
  | .dependency => some "A required platform dependency failed."
  | .timeout => some "The invocation timed out."
  | .canceled => some "The invocation was canceled."
  | .internal => some "The platform could not complete the request."
  | .other _ => none

structure CorrelatedPlatformErrorV4 where
  code : PlatformErrorCode
  message : String
  traceID : String
  invocationID : String
  rootTaskID : String
deriving Repr, DecidableEq

/-- The schema definition `correlated`: a listed code, its own message
and three identifiers. -/
@[mk_iff]
structure CorrelatedPlatformErrorV4.Schema (e : CorrelatedPlatformErrorV4) : Prop where
  message : platformErrorV4Messages e.code = some e.message
  traceID : safeIdentifier e.traceID
  invocationID : safeIdentifier e.invocationID
  rootTaskID : safeIdentifier e.rootTaskID

instance (e : CorrelatedPlatformErrorV4) : Decidable e.Schema :=
  decidable_of_iff _ (CorrelatedPlatformErrorV4.schema_iff e).symm

def newCorrelatedPlatformErrorV4 (code : PlatformErrorCode)
    (traceID invocationID rootTaskID : String) :
    Except ContractError CorrelatedPlatformErrorV4 := do
  match platformErrorV4Messages code with
  | none => throw (.message ("unknown Platform Error v4 code " ++ code.text.quote))
  | some message =>
      parseTraceID traceID
      validateSafeContractIdentifier "invocation id" invocationID
      validateSafeContractIdentifier "root task id" rootTaskID
      pure ⟨code, message, traceID, invocationID, rootTaskID⟩

/-- A correlated error can be built exactly when the schema will accept
it. -/
theorem newCorrelatedPlatformErrorV4_ok_iff {code : PlatformErrorCode}
    {traceID invocationID rootTaskID : String} {e : CorrelatedPlatformErrorV4} :
    newCorrelatedPlatformErrorV4 code traceID invocationID rootTaskID = .ok e ↔
      e.Schema ∧ e.code = code ∧ e.traceID = traceID ∧ e.invocationID = invocationID
        ∧ e.rootTaskID = rootTaskID := by
  unfold newCorrelatedPlatformErrorV4 parseTraceID validateSafeContractIdentifier
  constructor
  · intro h
    cases hm : platformErrorV4Messages code with
    | none => simp [hm] at h
    | some message =>
        simp only [hm, check_bind_ok_iff, require_ok_iff, ← safeIdentifier_iff] at h
        obtain ⟨ht, hi, hr, ⟨⟩⟩ := h
        exact ⟨⟨hm, ht, hi, hr⟩, rfl, rfl, rfl, rfl⟩
  · rintro ⟨⟨hm, ht, hi, hr⟩, rfl, rfl, rfl, rfl⟩
    simp only [hm, check_bind_ok_iff, require_ok_iff, ← safeIdentifier_iff]
    exact ⟨ht, hi, hr, rfl⟩

/-! ## Invocation Event v0.3 -/

inductive CallerType where
  | user
  | agent
  | service
  | other (text : String)
deriving Repr, DecidableEq

/-- The text is one of the schema's enumeration. -/
def CallerType.known : CallerType → Bool
  | .other _ => false
  | _ => true

structure Caller where
  type : CallerType
  id : String
deriving Repr, DecidableEq

inductive EventType where
  | created
  | routing
  | started
  | stream
  | succeeded
  | failed
  | canceled
  | timedOut
  | other (text : String)
deriving Repr, DecidableEq

inductive InvocationStatus where
  | pending
  | routing
  | running
  | succeeded
  | failed
  | canceled
  | timedOut
  | other (text : String)
deriving Repr, DecidableEq

def EventType.text : EventType → String
  | .created => "created"
  | .routing => "routing"
  | .started => "started"
  | .stream => "stream"
  | .succeeded => "succeeded"
  | .failed => "failed"
  | .canceled => "canceled"
  | .timedOut => "timed_out"
  | .other text => text

def InvocationStatus.text : InvocationStatus → String
  | .pending => "pending"
  | .routing => "routing"
  | .running => "running"
  | .succeeded => "succeeded"
  | .failed => "failed"
  | .canceled => "canceled"
  | .timedOut => "timed_out"
  | .other text => text

def CallerType.text : CallerType → String
  | .user => "user"
  | .agent => "agent"
  | .service => "service"
  | .other text => text

def InvocationStatus.known : InvocationStatus → Bool
  | .other _ => false
  | _ => true

def isRuntimeTerminalStatus : InvocationStatus → Bool
  | .succeeded | .failed | .canceled | .timedOut => true
  | _ => false

/-- The eleven fields that identify an invocation. They are the same in
every event and in the projection of one invocation. -/
structure InvocationContext where
  invocationID : String
  rootTaskID : String
  parentInvocationID : String
  traceID : String
  caller : Caller
  workspaceID : String
  targetAgentID : String
  agentCardVersion : String
  agentReleaseID : String
  agentCardDigest : String
  capability : String
deriving Repr, DecidableEq

structure InvocationEventV03 extends InvocationContext where
  schemaVersion : String
  eventID : String
  sequence : Int
  occurredAt : String
  type : EventType
  status : InvocationStatus
  chunkIndex : Option Int
  chunkBytes : Option Int
  latencyMS : Option Int
  error : Option CorrelatedPlatformErrorV4
deriving Repr, DecidableEq

/-- `^[0-9a-f]{64}$`. -/
def cardDigestPattern : Regex := .exactly (.chars Hex.isLower) 64

theorem isLower_of_cardDigestPattern {s : String} (h : cardDigestPattern.matchText s = true) :
    s.toList.length = 64 ∧ ∀ c ∈ s.toList, Hex.isLower c = true :=
  (Regex.accepts_exactly_chars Hex.isLower 64 s.toList).mp h

/-- An optional count of the wire: absent, or not negative. -/
def nonNegative (n : Option Int) : Prop := ∀ i ∈ n, 0 ≤ i

instance (n : Option Int) : Decidable (nonNegative n) :=
  inferInstanceAs (Decidable (∀ i ∈ n, 0 ≤ i))

/-- The conditional rules of the event schema: which status, counters
and error each event type has. -/
def InvocationEventV03.shape (e : InvocationEventV03) : Bool :=
  match e.type with
  | .created =>
      e.status == .pending && e.chunkIndex == none && e.chunkBytes == none
        && e.latencyMS == none && e.error == none
  | .routing =>
      e.status == .routing && e.chunkIndex == none && e.chunkBytes == none
        && e.latencyMS == none && e.error == none
  | .started =>
      e.status == .running && e.chunkIndex == none && e.chunkBytes == none
        && e.latencyMS == none && e.error == none
  | .stream =>
      e.status == .running && e.chunkIndex.isSome && e.chunkBytes.isSome
        && e.latencyMS == none && e.error == none
  | .succeeded =>
      e.status == .succeeded && e.chunkIndex == none && e.chunkBytes == none
        && e.latencyMS.isSome && e.error == none
  | .failed =>
      e.status == .failed && e.chunkIndex == none && e.chunkBytes == none && e.latencyMS.isSome
        && e.error.any fun err => err.code != .canceled && err.code != .timeout
  | .canceled =>
      e.status == .canceled && e.chunkIndex == none && e.chunkBytes == none && e.latencyMS.isSome
        && e.error.any fun err => err.code == .canceled
  | .timedOut =>
      e.status == .timedOut && e.chunkIndex == none && e.chunkBytes == none && e.latencyMS.isSome
        && e.error.any fun err => err.code == .timeout
  | .other _ => false

/-- The four forms an event of the right shape can have. -/
inductive InvocationEventV03.Form (e : InvocationEventV03) : Prop where
  | progress
      (htype : (e.type = .created ∧ e.status = .pending) ∨ (e.type = .routing ∧ e.status = .routing)
        ∨ (e.type = .started ∧ e.status = .running))
      (hindex : e.chunkIndex = none) (hbytes : e.chunkBytes = none) (hlatency : e.latencyMS = none)
      (herror : e.error = none)
  | stream (index bytes : Int) (htype : e.type = .stream) (hstatus : e.status = .running)
      (hindex : e.chunkIndex = some index) (hbytes : e.chunkBytes = some bytes)
      (hlatency : e.latencyMS = none) (herror : e.error = none)
  | success (latency : Int) (htype : e.type = .succeeded) (hstatus : e.status = .succeeded)
      (hindex : e.chunkIndex = none) (hbytes : e.chunkBytes = none)
      (hlatency : e.latencyMS = some latency) (herror : e.error = none)
  | failure (latency : Int) (err : CorrelatedPlatformErrorV4)
      (htype : (e.type = .failed ∧ e.status = .failed ∧ err.code ≠ .canceled ∧ err.code ≠ .timeout)
        ∨ (e.type = .canceled ∧ e.status = .canceled ∧ err.code = .canceled)
        ∨ (e.type = .timedOut ∧ e.status = .timedOut ∧ err.code = .timeout))
      (hindex : e.chunkIndex = none) (hbytes : e.chunkBytes = none)
      (hlatency : e.latencyMS = some latency) (herror : e.error = some err)

theorem InvocationEventV03.form_of_shape {e : InvocationEventV03} (h : e.shape = true) :
    e.Form := by
  cases htype : e.type with
  | other text => simp [shape, htype] at h
  | created | routing | started =>
      simp only [shape, htype, Bool.and_eq_true, beq_iff_eq] at h
      obtain ⟨⟨⟨⟨h1, h2⟩, h3⟩, h4⟩, h5⟩ := h
      exact .progress (by simp [htype, h1]) h2 h3 h4 h5
  | stream =>
      simp only [shape, htype, Bool.and_eq_true, beq_iff_eq, Option.isSome_iff_exists] at h
      obtain ⟨⟨⟨⟨h1, i, h2⟩, b, h3⟩, h4⟩, h5⟩ := h
      exact .stream i b htype h1 h2 h3 h4 h5
  | succeeded =>
      simp only [shape, htype, Bool.and_eq_true, beq_iff_eq, Option.isSome_iff_exists] at h
      obtain ⟨⟨⟨⟨h1, h2⟩, h3⟩, n, h4⟩, h5⟩ := h
      exact .success n htype h1 h2 h3 h4 h5
  | failed | canceled | timedOut =>
      simp only [shape, htype, Bool.and_eq_true, beq_iff_eq, bne_iff_ne, Option.isSome_iff_exists,
        Option.any_eq_true] at h
      obtain ⟨⟨⟨⟨h1, h2⟩, h3⟩, n, h4⟩, err, h5, h6⟩ := h
      exact .failure n err (by simp [htype, h1, h6]) h2 h3 h4 h5

theorem InvocationEventV03.Form.status_known {e : InvocationEventV03} (h : e.Form) :
    e.status.known = true := by
  cases h with
  | progress htype => rcases htype with ⟨-, h⟩ | ⟨-, h⟩ | ⟨-, h⟩ <;> rw [h] <;> rfl
  | stream _ _ _ hstatus => rw [hstatus]; rfl
  | success _ _ hstatus => rw [hstatus]; rfl
  | failure _ _ htype => rcases htype with ⟨-, h, -⟩ | ⟨-, h, -⟩ | ⟨-, h, -⟩ <;> rw [h] <;> rfl

section Contracts

variable [Semver]

/-- The identifying part of the event schema. An empty optional field is
omitted from the JSON text. -/
@[mk_iff]
structure InvocationContext.Schema (c : InvocationContext) : Prop where
  invocationID : safeIdentifier c.invocationID
  rootTaskID : safeIdentifier c.rootTaskID
  parentInvocationID : c.parentInvocationID = "" ∨ safeIdentifier c.parentInvocationID
  traceID : safeIdentifier c.traceID
  callerType : c.caller.type.known = true
  callerID : safeIdentifier c.caller.id
  workspaceID : safeIdentifier c.workspaceID
  targetAgentID : safeIdentifier c.targetAgentID
  agentCardVersion : semverText c.agentCardVersion
  agentReleaseID : c.agentReleaseID = "" ∨ safeIdentifier c.agentReleaseID
  agentCardDigest : c.agentCardDigest = "" ∨ cardDigestPattern.matchText c.agentCardDigest = true
  provenance : c.agentReleaseID = "" ↔ c.agentCardDigest = ""
  capability : safeIdentifier c.capability

instance (c : InvocationContext) : Decidable c.Schema :=
  decidable_of_iff _ (InvocationContext.schema_iff c).symm

/-- `invocation-event.v0.3.schema.json`. -/
@[mk_iff]
structure InvocationEventV03.Schema (e : InvocationEventV03) : Prop where
  schemaVersion : e.schemaVersion = "0.3"
  eventID : safeIdentifier e.eventID
  sequence : 0 ≤ e.sequence
  occurredAt : Rfc3339.dateTime e.occurredAt = true
  context : e.toInvocationContext.Schema
  chunkIndex : nonNegative e.chunkIndex
  chunkBytes : nonNegative e.chunkBytes
  latencyMS : nonNegative e.latencyMS
  error : ∀ err ∈ e.error, err.Schema
  shape : e.shape = true

instance (e : InvocationEventV03) : Decidable e.Schema :=
  decidable_of_iff _ (InvocationEventV03.schema_iff e).symm

/-- Lower-case SHA-256 text next to a release ID, or neither. -/
def validateInvocationReleaseProvenance (releaseID cardDigest : String) :
    Except ContractError Unit := do
  require ((releaseID = "") ↔ (cardDigest = "")) (.message
    "invocation release provenance must contain both release ID and card digest")
  if releaseID = "" then pure ()
  else do
    validateSafeContractIdentifier "Agent Release ID" releaseID
    require (cardDigest.utf8ByteSize = 64 ∧ cardDigest = cardDigest.map Char.toLower)
      (.message "agent card digest must be canonical lower-case SHA-256")
    require ((Hex.decode cardDigest).any fun decoded => decoded.length == 32)
      (.message "agent card digest must be canonical lower-case SHA-256")

def validateRuntimeNestedErrorCorrelation (invocationID rootTaskID traceID : String)
    (platformError : Option CorrelatedPlatformErrorV4) : Except ContractError Unit :=
  match platformError with
  | none => pure ()
  | some err =>
      require (err.invocationID = invocationID ∧ err.rootTaskID = rootTaskID
          ∧ err.traceID = traceID)
        (.message "nested Platform Error v4 correlation changed")

def validateInvocationEventV03 (e : InvocationEventV03) : Except ContractError Unit := do
  require e.Schema .schema
  validateInvocationReleaseProvenance e.agentReleaseID e.agentCardDigest
  validateRuntimeNestedErrorCorrelation e.invocationID e.rootTaskID e.traceID e.error

/-! ### What a valid event is -/

/-- The schema already says what the provenance check asks. -/
theorem validateInvocationReleaseProvenance_of_schema {c : InvocationContext} (h : c.Schema) :
    validateInvocationReleaseProvenance c.agentReleaseID c.agentCardDigest = .ok () := by
  unfold validateInvocationReleaseProvenance
  rw [check_bind_ok_iff, require_ok_iff]
  refine ⟨h.provenance, ?_⟩
  by_cases hr : c.agentReleaseID = ""
  · rw [if_pos hr]
    rfl
  · have hid := h.agentReleaseID.resolve_left hr
    have hd := h.agentCardDigest.resolve_left fun hd => hr (h.provenance.mpr hd)
    obtain ⟨hlen, hall⟩ := isLower_of_cardDigestPattern hd
    obtain ⟨bs, hbs, hn, -⟩ := Hex.decode_of_isLower (n := 32) hlen hall
    rw [if_neg hr]
    unfold validateSafeContractIdentifier
    simp only [check_bind_ok_iff, require_ok_iff]
    refine ⟨safeIdentifier_iff.mp hid, ⟨?_, (Hex.map_toLower_of_isLower hall).symm⟩, ?_⟩
    · rw [Hex.utf8ByteSize_of_isLower hall, hlen]
    · simp [hbs, hn]

/-- The nested error of an event names the event's own correlation. -/
def InvocationEventV03.Correlated (e : InvocationEventV03) : Prop :=
  ∀ err ∈ e.error, err.invocationID = e.invocationID ∧ err.rootTaskID = e.rootTaskID
    ∧ err.traceID = e.traceID

theorem validateInvocationEventV03_ok_iff {e : InvocationEventV03} :
    validateInvocationEventV03 e = .ok () ↔ e.Schema ∧ e.Correlated := by
  unfold validateInvocationEventV03
  rw [check_bind_ok_iff, require_ok_iff]
  refine and_congr_right fun hs => ?_
  rw [check_bind_ok_iff, validateInvocationReleaseProvenance_of_schema hs.context]
  unfold validateRuntimeNestedErrorCorrelation InvocationEventV03.Correlated
  cases e.error with
  | none => simp [pure, Except.pure]
  | some err => simp

end Contracts

end Nekiro
