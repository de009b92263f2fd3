import Nekiro.LedgerTables

/-!
# The workspace store

`workspace.workspaces` and `workspace.installations` after migrations 001
and 002, and the writes of `postgres.Store` over them. Each call is one
transaction, so it either commits the whole new state or fails and leaves
the old one.

The columns of an installation that no `UPDATE` touches are a record of
their own, the `Pin`. A stored time has microseconds; the driver cuts the
rest. A failed `Exec` is a dependency error under the operation's name,
except that `CreateWorkspace` and `CreateInstallation` report a violated
key as a conflict. A connection that fails is not modelled: such a call
changes nothing, as if it were not made. A `nil` list of permissions is
refused by `NOT NULL`, so the list of a call is never `nil`.
-/

namespace Nekiro

open Guard

inductive WorkspaceError where
  | notFound
  | forbidden
  | conflict
  | invalid
  | dependency (operation : String)
  | agentNotInstalled
  | installationDisabled
  | agentDisabled
  | releaseUnpublished
  | releaseSuspended
  | releaseRevoked
  | capabilityNotAllowed
deriving Repr, DecidableEq

/-- `contracts.Workspace`, which is also a row of `workspace.workspaces`. -/
structure Workspace where
  workspaceID : String
  ownerID : String
  createdAt : Time
  updatedAt : Time
deriving Repr, DecidableEq

/-- `contracts.Installation`. -/
structure Installation where
  installationID : String
  workspaceID : String
  agentID : String
  versionConstraint : String
  installedVersion : String
  installedReleaseID : String
  acceptedPermissions : List String
  status : String
  installedAt : Time
  updatedAt : Time
  uninstalledAt : Option Time
deriving Repr, DecidableEq

/-- The texts that `installations_status` admits. -/
inductive InstallationStatus where
  | enabled
  | disabled
  | uninstalled
deriving Repr, DecidableEq

namespace InstallationStatus

def text : InstallationStatus → String
  | enabled => "enabled"
  | disabled => "disabled"
  | uninstalled => "uninstalled"

def ofText (s : String) : Option InstallationStatus :=
  [enabled, disabled, uninstalled].find? fun status => status.text = s

end InstallationStatus

namespace WorkspaceTables

open LedgerTables

/-- The columns that are written once. -/
structure Pin where
  installationID : String
  workspaceID : String
  agentID : String
  versionConstraint : String
  installedVersion : String
  acceptedPermissions : List String
  installedAt : Time
  installedReleaseID : Option String
deriving Repr, DecidableEq

/-- A row of `workspace.installations`. -/
structure InstallationRow extends Pin where
  status : InstallationStatus
  updatedAt : Time
  uninstalledAt : Option Time
deriving Repr, DecidableEq

/-! ## Column types and CHECK constraints

The identifier pattern bounds the length of a `varchar(128)` column and
keeps U+0000 out of it. -/

/-- A value of a `text` column. -/
def text (s : String) : Prop := '\x00' ∉ s.toList

instance (s : String) : Decidable (text s) := inferInstanceAs (Decidable (¬_))

/-- What the columns and constraints of `workspace.workspaces` admit. -/
@[mk_iff]
structure WorkspaceChecks (w : Workspace) : Prop where
  workspaceID : identifierFormat w.workspaceID
  ownerID : identifierFormat w.ownerID
  createdAt : timestamptz w.createdAt
  updatedAt : timestamptz w.updatedAt
  timestampOrder : w.createdAt ≤ w.updatedAt

instance (w : Workspace) : Decidable (WorkspaceChecks w) :=
  decidable_of_iff _ (workspaceChecks_iff w).symm

@[mk_iff]
structure Pin.Checks (p : Pin) : Prop where
  installationID : identifierFormat p.installationID
  workspaceID : identifierFormat p.workspaceID
  agentID : identifierFormat p.agentID
  versionConstraint : text p.versionConstraint
  installedVersion : text p.installedVersion
  acceptedPermissions : ∀ permission ∈ p.acceptedPermissions, text permission
  installedAt : timestamptz p.installedAt
  releaseID : ∀ releaseID ∈ p.installedReleaseID, identifierFormat releaseID

instance (p : Pin) : Decidable p.Checks := decidable_of_iff _ (Pin.checks_iff p).symm

/-- `installations_state_timestamps`. -/
def InstallationRow.stateTimestamps (r : InstallationRow) : Prop :=
  (r.status = .enabled ∨ r.status = .disabled) ∧ r.uninstalledAt = none
    ∨ r.status = .uninstalled ∧ r.uninstalledAt = some r.updatedAt

instance (r : InstallationRow) : Decidable r.stateTimestamps :=
  inferInstanceAs (Decidable (_ ∨ _))

/-- What the columns and constraints of `workspace.installations` admit. -/
@[mk_iff]
structure InstallationRow.Checks (r : InstallationRow) : Prop where
  pin : r.toPin.Checks
  updatedAt : timestamptz r.updatedAt
  uninstalledAt : ∀ t ∈ r.uninstalledAt, timestamptz t
  timestampOrder : r.installedAt ≤ r.updatedAt
  stateTimestamps : r.stateTimestamps

instance (r : InstallationRow) : Decidable r.Checks :=
  decidable_of_iff _ (InstallationRow.checks_iff r).symm

/-- `installations_current_agent_idx`, the partial unique index: no two
rows of it have the same workspace and agent. -/
def currentAgents (rows : List InstallationRow) : List (String × String) :=
  (rows.filter fun r => r.status ≠ .uninstalled).map fun r => (r.workspaceID, r.agentID)

/-- The columns as the store scans them. -/
def InstallationRow.scan (r : InstallationRow) : Installation where
  installationID := r.installationID
  workspaceID := r.workspaceID
  agentID := r.agentID
  versionConstraint := r.versionConstraint
  installedVersion := r.installedVersion
  installedReleaseID := r.installedReleaseID.getD ""
  acceptedPermissions := r.acceptedPermissions
  status := r.status.text
  installedAt := r.installedAt
  updatedAt := r.updatedAt
  uninstalledAt := r.uninstalledAt

end WorkspaceTables

open WorkspaceTables

/-- The committed rows, in insertion order. -/
structure Workspaces where
  workspaces : List Workspace
  installations : List InstallationRow
deriving Repr, DecidableEq

namespace Workspaces

def empty : Workspaces := ⟨[], []⟩

/-! ## Reads -/

def getWorkspace (s : Workspaces) (workspaceID : String) : Except WorkspaceError Workspace :=
  match s.workspaces.find? fun w => w.workspaceID = workspaceID with
  | some w => .ok w
  | none => .error .notFound

def hasCurrentInstallation (s : Workspaces) (workspaceID agentID : String) : Bool :=
  s.installations.any fun r =>
    r.workspaceID = workspaceID ∧ r.agentID = agentID ∧ r.status ≠ .uninstalled

/-- `getInstallation`: the row that the condition names. -/
def findInstallation (s : Workspaces) (condition : InstallationRow → Bool) :
    Except WorkspaceError InstallationRow :=
  match s.installations.find? condition with
  | some r => .ok r
  | none => .error .notFound

/-- `WHERE workspace_id = $1 AND installation_id = $2`. -/
def named (workspaceID installationID : String) (r : InstallationRow) : Bool :=
  r.workspaceID = workspaceID ∧ r.installationID = installationID

def getInstallation (s : Workspaces) (workspaceID installationID : String) :
    Except WorkspaceError InstallationRow :=
  s.findInstallation (named workspaceID installationID)

def getCurrentInstallation (s : Workspaces) (workspaceID agentID : String) :
    Except WorkspaceError InstallationRow :=
  s.findInstallation fun r =>
    r.workspaceID = workspaceID ∧ r.agentID = agentID ∧ r.status ≠ .uninstalled

/-! ## Writes -/

def createWorkspace (s : Workspaces) (value : Workspace) : Except WorkspaceError Workspaces := do
  let row := { value with
    createdAt := value.createdAt.truncateMicro, updatedAt := value.updatedAt.truncateMicro }
  require (WorkspaceChecks row) (.dependency "insert Workspace")
  require (∀ w ∈ s.workspaces, w.workspaceID ≠ row.workspaceID) .conflict
  pure { s with workspaces := s.workspaces ++ [row] }

/-- The row of an `INSERT`; none when `installations_status` refuses the
text. -/
def insertedRow (value : Installation) : Option InstallationRow :=
  (InstallationStatus.ofText value.status).map fun status => {
    installationID := value.installationID
    workspaceID := value.workspaceID
    agentID := value.agentID
    versionConstraint := value.versionConstraint
    installedVersion := value.installedVersion
    acceptedPermissions := value.acceptedPermissions
    installedAt := value.installedAt.truncateMicro
    installedReleaseID := if value.installedReleaseID = "" then none
      else some value.installedReleaseID
    status := status
    updatedAt := value.updatedAt.truncateMicro
    uninstalledAt := value.uninstalledAt.map Time.truncateMicro }

/-- The keys of `workspace.installations`. -/
def keysFree (s : Workspaces) (row : InstallationRow) : Prop :=
  (∀ r ∈ s.installations, r.installationID ≠ row.installationID)
    ∧ (currentAgents (s.installations ++ [row])).Nodup

instance (s : Workspaces) (row : InstallationRow) : Decidable (s.keysFree row) :=
  inferInstanceAs (Decidable (_ ∧ _))

/-- `CreateInstallation`, with the row it returns. -/
def createInstallation (s : Workspaces) (callerID : String) (value : Installation) :
    Except WorkspaceError (InstallationRow × Workspaces) := do
  let w ← s.getWorkspace value.workspaceID
  require (w.ownerID = callerID) .forbidden
  require (s.hasCurrentInstallation value.workspaceID value.agentID = false) .conflict
  match insertedRow value with
  | none => throw (.dependency "insert Installation")
  | some row => do
      require row.Checks (.dependency "insert Installation")
      require (s.keysFree row) .conflict
      pure (row, { s with installations := s.installations ++ [row] })

def nextLifecycleTime (previous candidate : Time) : Time :=
  if previous.truncateMicro < candidate.truncateMicro then candidate.truncateMicro
  else previous.truncateMicro + Time.microsecond

/-- `UPDATE workspace.installations SET …` of the named row. -/
def updateInstallation (s : Workspaces) (workspaceID installationID operation : String)
    (set : InstallationRow → InstallationRow) :
    Except WorkspaceError Workspaces := do
  let rows := s.installations.map fun r =>
    if named workspaceID installationID r then set r else r
  require (∀ r ∈ s.installations, named workspaceID installationID r → (set r).Checks)
    (.dependency operation)
  require (currentAgents rows).Nodup (.dependency operation)
  pure { s with installations := rows }

/-- `contracts.ValidateInstallationImmutablePin`. -/
def validateInstallationImmutablePin (before after : InstallationRow) :
    Except WorkspaceError Unit :=
  require (before.versionConstraint = after.versionConstraint
      ∧ before.installedVersion = after.installedVersion
      ∧ before.installedReleaseID = after.installedReleaseID
      ∧ before.acceptedPermissions = after.acceptedPermissions)
    (.dependency "validate immutable Installation pin")

/-- The part that the two transitions share, with the row they return. -/
def transition (s : Workspaces) (before : InstallationRow) (operation : String)
    (set : InstallationRow → InstallationRow) :
    Except WorkspaceError (InstallationRow × Workspaces) := do
  validateInstallationImmutablePin before (set before)
  let s' ← s.updateInstallation before.workspaceID before.installationID operation set
  pure (set before, s')

def changeInstallationStatus (s : Workspaces) (workspaceID installationID status : String)
    (clock : Time) : Except WorkspaceError (InstallationRow × Workspaces) := do
  let before ← s.getInstallation workspaceID installationID
  require (before.status ≠ .uninstalled ∧ before.status.text ≠ status) .conflict
  let committedAt := nextLifecycleTime before.updatedAt clock
  match before.status, InstallationStatus.ofText status with
  | .enabled, some .disabled =>
      s.transition before "update Installation status" fun r =>
        { r with status := .disabled, updatedAt := committedAt }
  | .disabled, some .enabled =>
      s.transition before "update Installation status" fun r =>
        { r with status := .enabled, updatedAt := committedAt }
  | _, _ => throw .conflict

def uninstallInstallation (s : Workspaces) (workspaceID installationID : String) (clock : Time) :
    Except WorkspaceError (InstallationRow × Workspaces) := do
  let before ← s.getInstallation workspaceID installationID
  require (before.status = .disabled) .conflict
  let committedAt := nextLifecycleTime before.updatedAt clock
  s.transition before "uninstall Installation" fun r =>
    { r with status := .uninstalled, updatedAt := committedAt, uninstalledAt := some committedAt }

/-! ## Runs of calls -/

inductive Call where
  | createWorkspace (value : Workspace)
  | createInstallation (callerID : String) (value : Installation)
  | changeInstallationStatus (workspaceID installationID status : String) (clock : Time)
  | uninstallInstallation (workspaceID installationID : String) (clock : Time)
deriving Repr

def step (s : Workspaces) : Call → Except WorkspaceError Workspaces
  | .createWorkspace value => s.createWorkspace value
  | .createInstallation callerID value => Prod.snd <$> s.createInstallation callerID value
  | .changeInstallationStatus workspaceID installationID status clock =>
      Prod.snd <$> s.changeInstallationStatus workspaceID installationID status clock
  | .uninstallInstallation workspaceID installationID clock =>
      Prod.snd <$> s.uninstallInstallation workspaceID installationID clock

/-- The state after the calls, in the order they were committed. -/
def run (s : Workspaces) (calls : List Call) : Workspaces := Transact.run step s calls

end Workspaces

end Nekiro
