import Mathlib.Data.List.Sort
import Nekiro.LedgerTables

/-!
# The ledger store

`ledger.Store` over the two tables. `Append` is one transaction: it
locks the projection (or the parent of a new invocation), re-validates
the stored history, and writes. `checks` is everything before the
writes, `writes` the rest, so a constraint of the database can refuse
only what `checks` let through.

A row that cannot be scanned, a failed `Exec` of another class than the
four SQL states `classifyWriteError` knows, and a failed re-validation
are dependency errors under the operation's name. A connection that
fails is not modelled: such a call changes nothing, as if it were not
made.
-/

namespace Nekiro

open Guard

inductive LedgerError where
  | conflict
  | notFound
  | validation (detail : Option String)
  | dependency (operation : String)
deriving Repr, DecidableEq

/-- The committed rows, in insertion order. -/
structure Ledger where
  invocations : List LedgerTables.InvocationRow
  events : List LedgerTables.EventRow
deriving Repr, DecidableEq

namespace Ledger

open LedgerTables

def empty : Ledger := ⟨[], []⟩

/-! ## Rows -/

def nullableText (value : String) : Option String := if value = "" then none else some value

/-- `digestBytes`: the inner option is the `NULL` of an absent digest. -/
def digestBytes (value : String) : Option (Option (List UInt8)) :=
  if value = "" then some none
  else match Hex.decode value with
    | some decoded => if decoded.length = 32 then some (some decoded) else none
    | none => none

/-- The context columns of a row, next to a decoded digest. -/
def columnsWith (c : InvocationContext) (digest : Option (List UInt8)) : ContextColumns where
  invocationID := c.invocationID
  rootTaskID := c.rootTaskID
  parentInvocationID := nullableText c.parentInvocationID
  traceID := c.traceID
  callerType := c.caller.type
  callerID := c.caller.id
  workspaceID := c.workspaceID
  targetAgentID := c.targetAgentID
  agentCardVersion := c.agentCardVersion
  agentReleaseID := nullableText c.agentReleaseID
  agentCardDigest := digest
  capability := c.capability

/-- The row `insertProjection` writes. -/
def invocationRow (e : InvocationEventV03) (occurredAt : Time) : Option InvocationRow := do
  let digest ← digestBytes e.agentCardDigest
  some ⟨columnsWith e.toInvocationContext digest, e.status, none, none, occurredAt, occurredAt⟩

/-- The row `insertEvent` writes. -/
def eventRow (e : InvocationEventV03) (occurredAt : Time) : Option EventRow := do
  let digest ← digestBytes e.agentCardDigest
  some ⟨columnsWith e.toInvocationContext digest, e.eventID, e.sequence, occurredAt, e.type,
    e.status, e.chunkIndex, e.chunkBytes, e.latencyMS, e.error.map (·.code)⟩

/-- The row `updateProjection` leaves. -/
def updatedRow (r : InvocationRow) (e : InvocationEventV03) (occurredAt : Time) : InvocationRow :=
  { r with
    status := e.status
    latencyMS := e.latencyMS
    errorCode := e.error.map (·.code)
    updatedAt := occurredAt }

def assignReleaseProvenance (storedID : Option String) (storedDigest : Option (List UInt8)) :
    Option (String × String) :=
  match storedID, storedDigest.getD [] with
  | none, [] => some ("", "")
  | some id, b :: bs =>
      if (b :: bs).length = 32 then some (id, Hex.encode (b :: bs)) else none
  | _, _ => none

def scanContext (c : ContextColumns) : Option InvocationContext := do
  let (releaseID, cardDigest) ← assignReleaseProvenance c.agentReleaseID c.agentCardDigest
  some {
    invocationID := c.invocationID
    rootTaskID := c.rootTaskID
    parentInvocationID := c.parentInvocationID.getD ""
    traceID := c.traceID
    caller := ⟨c.callerType, c.callerID⟩
    workspaceID := c.workspaceID
    targetAgentID := c.targetAgentID
    agentCardVersion := c.agentCardVersion
    agentReleaseID := releaseID
    agentCardDigest := cardDigest
    capability := c.capability }

def scanProjection (r : InvocationRow) : Option InvocationRecordV1 := do
  let context ← scanContext r.toContextColumns
  some ⟨context, r.status, r.latencyMS, r.errorCode, r.createdAt, r.updatedAt⟩

/-- The error of a stored event is rebuilt from its code. -/
def scanError (c : ContextColumns) : Option PlatformErrorCode →
    Option (Option CorrelatedPlatformErrorV4)
  | none => some none
  | some code =>
      match newCorrelatedPlatformErrorV4 code c.traceID c.invocationID c.rootTaskID with
      | .ok err => some (some err)
      | .error _ => none

def scanEvent (r : EventRow) : Option InvocationEventV03 := do
  let error ← scanError r.toContextColumns r.errorCode
  let context ← scanContext r.toContextColumns
  some {
    toInvocationContext := context
    schemaVersion := "0.3"
    eventID := r.eventID
    sequence := r.sequence
    occurredAt := Rfc3339.format r.occurredAt
    type := r.eventType
    status := r.status
    chunkIndex := r.chunkIndex
    chunkBytes := r.chunkBytes
    latencyMS := r.latencyMS
    error := error }

/-! ## Reads -/

/-- An absent value is a dependency error of the operation. -/
def orDependency {α : Type} (operation : String) : Option α → Except LedgerError α
  | some a => .ok a
  | none => .error (.dependency operation)

def findProjection (s : Ledger) (invocationID : String) : Option InvocationRow :=
  s.invocations.find? fun r => r.invocationID = invocationID

/-- `lockProjection`: the row, or what the caller makes of its absence. -/
def lockProjection (s : Ledger) (invocationID operation : String) (missing : LedgerError) :
    Except LedgerError InvocationRecordV1 :=
  match s.findProjection invocationID with
  | none => .error missing
  | some row => orDependency operation (scanProjection row)

/-- The rows of one invocation, `ORDER BY sequence ASC`. -/
def eventRows (s : Ledger) (invocationID : String) : List EventRow :=
  (s.events.filter fun r => r.invocationID = invocationID).insertionSort
    fun a b => a.sequence ≤ b.sequence

def readEvents (s : Ledger) (invocationID : String) : Option (List InvocationEventV03) :=
  (s.eventRows invocationID).mapM scanEvent

/-! ## Writes -/

/-- `INSERT INTO ledger.invocations`: column types, CHECKs, the primary
key and the parent reference. -/
def insertProjection (s : Ledger) (e : InvocationEventV03) (occurredAt : Time) :
    Except LedgerError Ledger := do
  let row ← orDependency "insert Invocation projection" (invocationRow e occurredAt)
  require row.Types (.dependency "insert Invocation projection")
  require row.Checks (.validation none)
  require (∀ r ∈ s.invocations, r.invocationID ≠ row.invocationID) .conflict
  require (∀ parent ∈ row.parentInvocationID,
    ∃ r ∈ s.invocations ++ [row], r.invocationID = parent) .conflict
  pure { s with invocations := s.invocations ++ [row] }

/-- `INSERT INTO ledger.invocation_events`. -/
def insertEvent (s : Ledger) (e : InvocationEventV03) (occurredAt : Time) :
    Except LedgerError Ledger := do
  let row ← orDependency "insert Invocation event" (eventRow e occurredAt)
  require row.Types (.dependency "insert Invocation event")
  require row.Checks (.validation none)
  require (∀ r ∈ s.events, r.eventID ≠ row.eventID) .conflict
  require (∀ r ∈ s.events, ¬(r.invocationID = row.invocationID ∧ r.sequence = row.sequence))
    .conflict
  require (∃ r ∈ s.invocations, r.invocationID = row.invocationID) .conflict
  pure { s with events := s.events ++ [row] }

/-- `UPDATE ledger.invocations`: one row must be affected, and it must
pass the constraints afterwards. -/
def updateProjection (s : Ledger) (e : InvocationEventV03) (occurredAt : Time) :
    Except LedgerError Ledger := do
  let affected := s.invocations.filter fun r => r.invocationID = e.invocationID
  require (∀ r ∈ affected, (updatedRow r e occurredAt).Types)
    (.dependency "update Invocation projection")
  require (∀ r ∈ affected, (updatedRow r e occurredAt).Checks) (.validation none)
  require (affected.length = 1) (.dependency "update Invocation projection")
  pure { s with
    invocations := s.invocations.map fun r =>
      if r.invocationID = e.invocationID then updatedRow r e occurredAt else r }

/-! ## Append -/

section Append

variable [Semver]

def validateCandidate (e : InvocationEventV03) : Except LedgerError Time := do
  orFail (.validation (some "Event 0.3")) (validateInvocationEventV03 e)
  match Rfc3339.parse e.occurredAt with
  | none => throw (.validation (some "occurredAt"))
  | some occurredAt => do
      require (occurredAt = occurredAt.truncateMicro)
        (.validation (some "occurredAt exceeds PostgreSQL precision"))
      if e.sequence = 0 then
        let _ ← orFail (.validation (some "initial lifecycle event"))
          (RuntimeInvocationSequenceValidator.fresh.accept e)
        pure occurredAt
      else pure occurredAt

/-- The checks of a first event: its parent, if it names one. -/
def checkParent (s : Ledger) (e : InvocationEventV03) (occurredAt : Time) :
    Except LedgerError Unit :=
  if e.parentInvocationID = "" then .ok ()
  else do
    let parent ← s.lockProjection e.parentInvocationID "lock parent Invocation" .conflict
    orFail (.validation (some "nested lineage")) (validateNestedInvocationCorrelation parent e)
    require (parent.updatedAt ≤ occurredAt)
      (.validation (some "child timestamp precedes parent state"))

/-- The projection's times, latency and code are those of its events. -/
def checkProjectionState (projection : InvocationRecordV1) (history : List InvocationEventV03) :
    Except LedgerError Unit :=
  match history.head?, history.getLast? with
  | some first, some last =>
      require (Rfc3339.parse last.occurredAt = some projection.updatedAt
          ∧ Rfc3339.parse first.occurredAt = some projection.createdAt
          ∧ projection.latencyMS = last.latencyMS
          ∧ projection.errorCode = last.error.map (·.code))
        (.dependency "validate projection state")
  | _, _ => .error (.dependency "validate projection state")

/-- The checks of a later event: the stored history, and that the event
continues it. -/
def checkHistory (s : Ledger) (e : InvocationEventV03) (occurredAt : Time) :
    Except LedgerError Unit := do
  let projection ← s.lockProjection e.invocationID "lock Invocation projection" .conflict
  require (projection.updatedAt ≤ occurredAt)
    (.validation (some "event timestamp precedes projection"))
  let history ← orDependency "read Invocation history" (s.readEvents e.invocationID)
  orFail (.dependency "validate committed projection")
    (validateInvocationDetailResponseV1 projection.workspaceID ⟨projection, history⟩)
  checkProjectionState projection history
  let sequence ← orFail (.dependency "validate committed lifecycle")
    (RuntimeInvocationSequenceValidator.fresh.acceptAll history)
  let _ ← orFail (.validation (some "lifecycle transition")) (sequence.accept e)
  pure ()

/-- Everything `Append` asks before it writes. -/
def checks (s : Ledger) (e : InvocationEventV03) : Except LedgerError Time := do
  let occurredAt ← validateCandidate e
  if e.sequence = 0 then s.checkParent e occurredAt else s.checkHistory e occurredAt
  pure occurredAt

/-- The statements of `Append`. -/
def writes (s : Ledger) (e : InvocationEventV03) (occurredAt : Time) :
    Except LedgerError Ledger :=
  if e.sequence = 0 then do
    let s ← s.insertProjection e occurredAt
    s.insertEvent e occurredAt
  else do
    let s ← s.insertEvent e occurredAt
    s.updateProjection e occurredAt

/-- `Store.Append`. -/
def append (s : Ledger) (e : InvocationEventV03) : Except LedgerError Ledger := do
  let occurredAt ← s.checks e
  s.writes e occurredAt

/-- The ledger after a sequence of `Append` calls, from the empty one. -/
def appendAll (events : List InvocationEventV03) : Ledger :=
  Transact.run append empty events

end Append

end Ledger

end Nekiro
