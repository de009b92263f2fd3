import Nekiro.RuntimeRecords

/-!
# The tables of the ledger

`ledger.invocations` and `ledger.invocation_events` after migrations 001
and 002: the rows, what a column type admits (`Types`) and what the
CHECK constraints ask (`Checks`). Text columns are `varchar`, whose
limit counts characters; a `NULL` passes a CHECK. A `bigint` holds every
`int64` of the program, so it restricts nothing.
-/

namespace Nekiro

namespace LedgerTables

/-- The columns both tables share. -/
structure ContextColumns where
  invocationID : String
  rootTaskID : String
  parentInvocationID : Option String
  traceID : String
  callerType : CallerType
  callerID : String
  workspaceID : String
  targetAgentID : String
  agentCardVersion : String
  agentReleaseID : Option String
  agentCardDigest : Option (List UInt8)
  capability : String
deriving Repr, DecidableEq

/-- A row of `ledger.invocations`. -/
structure InvocationRow extends ContextColumns where
  status : InvocationStatus
  latencyMS : Option Int
  errorCode : Option PlatformErrorCode
  createdAt : Time
  updatedAt : Time
deriving Repr, DecidableEq

/-- A row of `ledger.invocation_events`. -/
structure EventRow extends ContextColumns where
  eventID : String
  sequence : Int
  occurredAt : Time
  eventType : EventType
  status : InvocationStatus
  chunkIndex : Option Int
  chunkBytes : Option Int
  latencyMS : Option Int
  errorCode : Option PlatformErrorCode
deriving Repr, DecidableEq

/-! ## Column types -/

def varchar (n : Nat) (s : String) : Prop := s.length ≤ n

instance (n : Nat) (s : String) : Decidable (varchar n s) := inferInstanceAs (Decidable (_ ≤ _))

/-- A PostgreSQL timestamp: from 4713 BC, exclusive of the year 294277. -/
def timestamptz (t : Time) : Prop :=
  Civil.toDays ⟨-4712, 1, 1⟩ * 86400 * Time.second ≤ t
    ∧ t < Civil.toDays ⟨294277, 1, 1⟩ * 86400 * Time.second

instance (t : Time) : Decidable (timestamptz t) := inferInstanceAs (Decidable (_ ∧ _))

@[mk_iff]
structure ContextColumns.Types (c : ContextColumns) : Prop where
  invocationID : varchar 128 c.invocationID
  rootTaskID : varchar 128 c.rootTaskID
  parentInvocationID : ∀ s ∈ c.parentInvocationID, varchar 128 s
  traceID : varchar 128 c.traceID
  callerType : varchar 16 c.callerType.text
  callerID : varchar 128 c.callerID
  workspaceID : varchar 128 c.workspaceID
  targetAgentID : varchar 128 c.targetAgentID
  agentCardVersion : varchar 128 c.agentCardVersion
  agentReleaseID : ∀ s ∈ c.agentReleaseID, varchar 128 s
  capability : varchar 128 c.capability

instance (c : ContextColumns) : Decidable c.Types :=
  decidable_of_iff _ (ContextColumns.types_iff c).symm

@[mk_iff]
structure InvocationRow.Types (r : InvocationRow) : Prop where
  context : r.toContextColumns.Types
  status : varchar 16 r.status.text
  errorCode : ∀ code ∈ r.errorCode, varchar 64 code.text
  createdAt : timestamptz r.createdAt
  updatedAt : timestamptz r.updatedAt

instance (r : InvocationRow) : Decidable r.Types :=
  decidable_of_iff _ (InvocationRow.types_iff r).symm

@[mk_iff]
structure EventRow.Types (r : EventRow) : Prop where
  context : r.toContextColumns.Types
  eventID : varchar 128 r.eventID
  occurredAt : timestamptz r.occurredAt
  eventType : varchar 16 r.eventType.text
  status : varchar 16 r.status.text
  errorCode : ∀ code ∈ r.errorCode, varchar 64 code.text

instance (r : EventRow) : Decidable r.Types :=
  decidable_of_iff _ (EventRow.types_iff r).symm

/-! ## CHECK constraints -/

/-- `^[A-Za-z0-9][A-Za-z0-9._:-]{0,127}$`. -/
def identifierFormat (s : String) : Prop :=
  Regex.matchText (.seq (.chars isAlphanumeric) (.upTo (.chars isIdentifierTail) 127)) s = true

instance (s : String) : Decidable (identifierFormat s) := inferInstanceAs (Decidable (_ = true))

/-- The list of `invocations_error_code` and
`invocation_events_error_code`. -/
def errorCodes : List PlatformErrorCode :=
  [.validationError, .unauthenticated, .forbidden, .notFound, .conflict, .notAcceptable,
    .payloadTooLarge, .agentNotInstalled, .installationDisabled, .agentDisabled,
    .capabilityNotAllowed, .routeNotFound, .agentAuthUnsupported, .agentResponseTooLarge,
    .a2aProtocol, .agentUnavailable, .agentExecutionFailed, .dependency, .timeout, .canceled,
    .internal]

/-- `identifier_format`, `trace_format`, `caller_type` and the three
release constraints of migration 002, alike in both tables. -/
@[mk_iff]
structure ContextColumns.Checks (c : ContextColumns) : Prop where
  invocationID : identifierFormat c.invocationID
  rootTaskID : identifierFormat c.rootTaskID
  parentInvocationID : ∀ s ∈ c.parentInvocationID, identifierFormat s
  callerID : identifierFormat c.callerID
  workspaceID : identifierFormat c.workspaceID
  targetAgentID : identifierFormat c.targetAgentID
  capability : identifierFormat c.capability
  traceID : identifierFormat c.traceID
  callerType : c.callerType ∈ [.user, .service, .agent]
  agentReleaseID : ∀ s ∈ c.agentReleaseID, identifierFormat s
  agentCardDigest : ∀ bytes ∈ c.agentCardDigest, bytes.length = 32
  provenancePair : c.agentReleaseID.isNone = c.agentCardDigest.isNone

instance (c : ContextColumns) : Decidable c.Checks :=
  decidable_of_iff _ (ContextColumns.checks_iff c).symm

/-- `invocations_terminal_shape`. -/
def InvocationRow.terminalShape (r : InvocationRow) : Prop :=
  (r.status ∈ [.pending, .routing, .running] ∧ r.latencyMS = none ∧ r.errorCode = none)
    ∨ (r.status = .succeeded ∧ r.latencyMS ≠ none ∧ r.errorCode = none)
    ∨ (r.status ∈ [.failed, .canceled, .timedOut] ∧ r.latencyMS ≠ none ∧ r.errorCode ≠ none)

instance (r : InvocationRow) : Decidable r.terminalShape :=
  inferInstanceAs (Decidable (_ ∨ _ ∨ _))

@[mk_iff]
structure InvocationRow.Checks (r : InvocationRow) : Prop where
  context : r.toContextColumns.Checks
  status : r.status ∈
    [.pending, .routing, .running, .succeeded, .failed, .canceled, .timedOut]
  latencyNonnegative : ∀ n ∈ r.latencyMS, 0 ≤ n
  errorCode : ∀ code ∈ r.errorCode, code ∈ errorCodes
  timestampOrder : r.createdAt ≤ r.updatedAt
  terminalShape : r.terminalShape

instance (r : InvocationRow) : Decidable r.Checks :=
  decidable_of_iff _ (InvocationRow.checks_iff r).symm

/-- `invocation_events_type_status`. -/
def EventRow.typeStatus (r : EventRow) : Prop :=
  (r.eventType = .created ∧ r.status = .pending)
    ∨ (r.eventType = .routing ∧ r.status = .routing)
    ∨ (r.eventType ∈ [.started, .stream] ∧ r.status = .running)
    ∨ (r.eventType.text = r.status.text
      ∧ r.eventType ∈ [.succeeded, .failed, .canceled, .timedOut])

instance (r : EventRow) : Decidable r.typeStatus :=
  inferInstanceAs (Decidable (_ ∨ _ ∨ _ ∨ _))

/-- `invocation_events_field_shape`. -/
def EventRow.fieldShape (r : EventRow) : Prop :=
  (r.eventType ∈ [.created, .routing, .started] ∧ r.chunkIndex = none ∧ r.chunkBytes = none
      ∧ r.latencyMS = none ∧ r.errorCode = none)
    ∨ (r.eventType = .stream ∧ r.chunkIndex ≠ none ∧ r.chunkBytes ≠ none
      ∧ r.latencyMS = none ∧ r.errorCode = none)
    ∨ (r.eventType = .succeeded ∧ r.chunkIndex = none ∧ r.chunkBytes = none
      ∧ r.latencyMS ≠ none ∧ r.errorCode = none)
    ∨ (r.eventType ∈ [.failed, .canceled, .timedOut] ∧ r.chunkIndex = none
      ∧ r.chunkBytes = none ∧ r.latencyMS ≠ none ∧ r.errorCode ≠ none)

instance (r : EventRow) : Decidable r.fieldShape :=
  inferInstanceAs (Decidable (_ ∨ _ ∨ _ ∨ _))

/-- `invocation_events_terminal_error`; the comparison with a `NULL` code
is unknown, and the row's other disjunct is then false, so the CHECK is
not violated by it. -/
def EventRow.terminalError (r : EventRow) : Prop :=
  (r.eventType = .canceled ∧ ∀ code ∈ r.errorCode, code = .canceled)
    ∨ (r.eventType = .timedOut ∧ ∀ code ∈ r.errorCode, code = .timeout)
    ∨ r.eventType ∉ [.canceled, .timedOut]

instance (r : EventRow) : Decidable r.terminalError :=
  inferInstanceAs (Decidable (_ ∨ _ ∨ _))

@[mk_iff]
structure EventRow.Checks (r : EventRow) : Prop where
  sequenceNonnegative : 0 ≤ r.sequence
  context : r.toContextColumns.Checks
  eventID : identifierFormat r.eventID
  chunkIndexNonnegative : ∀ n ∈ r.chunkIndex, 0 ≤ n
  chunkBytesNonnegative : ∀ n ∈ r.chunkBytes, 0 ≤ n
  latencyNonnegative : ∀ n ∈ r.latencyMS, 0 ≤ n
  typeStatus : r.typeStatus
  fieldShape : r.fieldShape
  terminalError : r.terminalError
  errorCode : ∀ code ∈ r.errorCode, code ∈ errorCodes

instance (r : EventRow) : Decidable r.Checks :=
  decidable_of_iff _ (EventRow.checks_iff r).symm

end LedgerTables

end Nekiro
