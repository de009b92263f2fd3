import Nekiro.CatalogTables

/-!
# The catalog store

`postgres.Store` of the catalog, without discovery: registration, the
legacy publication, Agent Releases and the trust tables. Each write is one
transaction: it commits the whole new state, or fails and leaves the old
one. The statements of a transaction are modelled in their order, since the
first one that fails decides the error.

A failed statement is a dependency error; `Refusal` keeps why the database
refused it. Only a violated unique key is told apart by some callers
(`constraintName`). A connection that fails is not modelled: such a call
changes nothing, as if it were not made.
-/

namespace Nekiro

open Guard

inductive CatalogTable where
  | identities
  | versions
  | capabilities
  | releases
  | providers
  | bindings
  | challenges
deriving Repr, DecidableEq

/-- Why a statement failed. -/
inductive Refusal where
  | column (table : CatalogTable)
  | check (table : CatalogTable)
  | key (table : CatalogTable)
  | reference (table : CatalogTable)
  | immutable
  | overflow
  | scan
  | encoding
  | identifier
  | network
  | wrapped
deriving Repr, DecidableEq

inductive CatalogError where
  | notFound
  | forbidden
  | conflict
  | invalid
  | dependency (operation : String) (cause : Refusal)
  | releaseNotFound
  | releaseConflict
  | releaseInvalid
  | releaseUnpublished
  | releaseSuspended
  | releaseRevoked
  | providerNotFound
  | bindingNotFound
  | challengeNotFound
  | challengeExpired
  | challengeReused
  | wrongProof
  | endpointUnavailable
  | redirectNotAllowed
  | disallowedNetwork
  | endpointInvalid
  | trustConflict
  | trustDependency (operation : String) (cause : Refusal)
deriving Repr, DecidableEq

/-- `catalog.AgentVersion`. -/
structure AgentVersion where
  publicAgentID : String
  card : AgentCard
  cardJSON : Json.Bytes
  cardDigest : Digest
  status : PublicationStatus
  registeredAt : Time
  publishedAt : Option Time
  publicationSequence : Option Int
  disabledAt : Option Time
  legacyUnverified : Bool
  release : Option AgentRelease

namespace Catalog

/-- A row that is written: first its columns, then its constraints. -/
def writeRow (columns checks : Prop) [Decidable columns] [Decidable checks] (table : CatalogTable)
    (fail : Refusal → CatalogError) : Except CatalogError Unit := do
  require columns (fail (.column table))
  require checks (fail (.check table))

/-! ## Reads -/

def findIdentity (s : Catalog) (agentID : String) : Option AgentIdentity :=
  s.identities.find? fun i => i.agentID = agentID

def findVersion (s : Catalog) (agentID version : String) : Option VersionRow :=
  s.versions.find? fun v => v.key = (agentID, version)

def findRelease (s : Catalog) (releaseID : String) : Option AgentRelease :=
  s.releases.find? fun r => r.releaseID = releaseID

/-- The release of a version, as `selectVersionSQL` joins it. -/
def releaseOf (s : Catalog) (v : VersionRow) : Option AgentRelease :=
  s.releases.find? fun r => r.versionKey = v.key

/-- `scanVersion`, with the owner of the agent. None if the identity is
missing or the stored card cannot be decoded. -/
def scanVersion (s : Catalog) (v : VersionRow) : Option (AgentVersion × String) := do
  let identity ← s.findIdentity v.agentID
  let card ← AgentCard.decodeStored v.card
  pure (⟨identity.publicAgentID, card, v.card, v.cardDigest, v.status, v.registeredAt,
    v.publishedAt, v.publicationSequence, v.disabledAt, v.legacyUnverified, s.releaseOf v⟩,
    identity.ownerID)

/-- The version with its owner; `operation` names a row that cannot be
scanned. -/
def readVersion (s : Catalog) (agentID version operation : String) :
    Except CatalogError (AgentVersion × String) :=
  match s.findVersion agentID version with
  | none => .error .notFound
  | some v =>
      match s.scanVersion v with
      | none => .error (.dependency operation .scan)
      | some entry => .ok entry

/-- `Store.Get`. -/
def get (s : Catalog) (agentID version : String) : Except CatalogError AgentVersion :=
  Prod.fst <$> s.readVersion agentID version "read Agent version"

def getRelease (s : Catalog) (releaseID : String) : Except CatalogError AgentRelease :=
  match s.findRelease releaseID with
  | none => .error .releaseNotFound
  | some r => .ok r

def getProvider (s : Catalog) (providerID : String) : Except CatalogError Provider :=
  match s.providers.find? fun p => p.providerID = providerID with
  | none => .error .providerNotFound
  | some p => .ok p

def getBinding (s : Catalog) (providerID bindingID : String) :
    Except CatalogError EndpointBinding :=
  match s.bindings.find? fun b => b.providerID = providerID ∧ b.bindingID = bindingID with
  | none => .error .bindingNotFound
  | some b => .ok b

/-! ## Registration -/

/-- `INSERT INTO catalog.agent_identities … ON CONFLICT (agent_id) DO
NOTHING`: the constraints are checked before the conflict is. -/
def claimIdentity (s : Catalog) (row : AgentIdentity) : Except CatalogError Catalog := do
  writeRow row.Columns row.Checks .identities (.dependency "claim Agent identity")
  if s.identities.any fun i => i.agentID = row.agentID then pure s
  else do
    require (∀ i ∈ s.identities, i.publicAgentID ≠ row.publicAgentID)
      (.dependency "claim Agent identity" (.key .identities))
    pure { s with identities := s.identities ++ [row] }

def insertCapability (s : Catalog) (row : CapabilityRow) : Except CatalogError Catalog := do
  writeRow row.Columns row.Checks .capabilities (.dependency "insert capability index")
  require (row ∉ s.capabilities) (.dependency "insert capability index" (.key .capabilities))
  pure { s with capabilities := s.capabilities ++ [row] }

/-- The row that `Register` inserts into `catalog.agent_versions`. -/
def registeredRow (version : AgentVersion) : VersionRow where
  agentID := version.card.agentID
  version := version.card.version
  schemaVersion := version.card.schemaVersion
  card := version.cardJSON
  cardName := version.card.name
  cardDescription := version.card.description
  cardDigest := version.cardDigest
  status := version.status
  registeredAt := version.registeredAt.truncateMicro
  publishedAt := none
  publicationSequence := none
  disabledAt := none
  legacyUnverified := false

def insertVersion (s : Catalog) (row : VersionRow) : Except CatalogError Catalog := do
  writeRow row.Columns row.Checks .versions (.dependency "insert Agent version")
  require (∀ v ∈ s.versions, v.key ≠ row.key) .conflict
  pure { s with versions := s.versions ++ [row] }

def register (s : Catalog) (version : AgentVersion) : Except CatalogError Catalog := do
  let card := version.card
  let s₁ ← s.claimIdentity ⟨card.agentID, card.owner.id, version.registeredAt.truncateMicro,
    version.publicAgentID, none⟩
  match s₁.findIdentity card.agentID with
  | none => throw (.dependency "read Agent owner" .scan)
  | some identity => do
      require (∀ v ∈ s₁.versions, v.key ≠ (card.agentID, card.version)) .conflict
      require (identity.ownerID = card.owner.id) .forbidden
      let s₂ ← s₁.insertVersion (registeredRow version)
      (card.skills.getD []).foldlM
        (fun s skill => s.insertCapability ⟨card.agentID, card.version, skill.id⟩) s₂

/-! ## The legacy publication -/

/-- `UPDATE catalog.publication_clock`. -/
def advanceClock (s : Catalog) (operation : String) : Except CatalogError (Int × Catalog) := do
  require (s.lastSequence < 9223372036854775807) (.dependency operation .overflow)
  pure (s.lastSequence + 1, { s with lastSequence := s.lastSequence + 1 })

/-- `UPDATE catalog.agent_versions … WHERE agent_id = $1 AND version = $2`. -/
def updateVersion (s : Catalog) (key : String × String) (operation : String)
    (set : VersionRow → VersionRow) : Except CatalogError Catalog := do
  let versions := Table.update VersionRow.key key set s.versions
  writeRow (∀ v ∈ s.versions, v.key = key → (set v).Columns)
    (∀ v ∈ s.versions, v.key = key → (set v).Checks) .versions (.dependency operation)
  require (versions.filterMap VersionRow.publicationSequence).Nodup
    (.dependency operation (.key .versions))
  pure { s with versions := versions }

def setPublished (clock : Time) (sequence : Int) (v : VersionRow) : VersionRow :=
  { v with
    status := .published, publishedAt := some clock.truncateMicro
    publicationSequence := some sequence }

def setDisabled (clock : Time) (v : VersionRow) : VersionRow :=
  { v with status := .disabled, disabledAt := some clock.truncateMicro }

/-- What `Publish` and `Disable` do before they differ. -/
def lockVersion (s : Catalog) (agentID version callerID : String) :
    Except CatalogError AgentVersion := do
  let (entry, ownerID) ← s.readVersion agentID version "lock Agent version"
  require (ownerID = callerID) .forbidden
  require (entry.release = none) .conflict
  pure entry

def publish (s : Catalog) (agentID version callerID : String) (clock : Time) :
    Except CatalogError Catalog := do
  let entry ← s.lockVersion agentID version callerID
  require (entry.status = .draft) .conflict
  let (sequence, s₁) ← s.advanceClock "advance publication clock"
  s₁.updateVersion (agentID, version) "publish Agent version" (setPublished clock sequence)

def disable (s : Catalog) (agentID version callerID : String) (clock : Time) :
    Except CatalogError Catalog := do
  let entry ← s.lockVersion agentID version callerID
  if entry.status = .disabled then pure s
  else s.updateVersion (agentID, version) "disable Agent version" (setDisabled clock)

/-! ## Releases -/

/-- The row of a release, with the times as they are stored. -/
def storedRelease (value : AgentRelease) : AgentRelease :=
  { value with
    createdAt := value.createdAt.truncateMicro
    updatedAt := value.updatedAt.truncateMicro
    verifiedAt := value.verifiedAt.map Time.truncateMicro
    publishedAt := value.publishedAt.map Time.truncateMicro
    suspendedAt := value.suspendedAt.map Time.truncateMicro
    revokedAt := value.revokedAt.map Time.truncateMicro }

/-- `CreateRelease`, with the row it returns. -/
def createRelease (s : Catalog) (value : AgentRelease) :
    Except CatalogError (AgentRelease × Catalog) := do
  require (s.findRelease value.releaseID = none) .releaseConflict
  let row := storedRelease value
  writeRow row.Columns row.Checks .releases (.dependency "insert Agent Release")
  require (∀ r ∈ s.releases, r.versionKey ≠ row.versionKey) .releaseConflict
  require ((∃ p ∈ s.providers, p.providerID = row.providerID)
      ∧ (∃ v ∈ s.versions, v.key = row.versionKey)
      ∧ ∃ b ∈ s.bindings, b.bindingID = row.endpointBindingID)
    (.dependency "insert Agent Release" (.reference .releases))
  pure (row, { s with releases := s.releases ++ [row] })

/-- `reject_agent_release_bound_mutation`. -/
def boundUnchanged (old new : AgentRelease) : Prop :=
  new.toReleaseFacts = old.toReleaseFacts
    ∧ (new.evidence = old.evidence
      ∨ old.state = .pendingVerification ∧ new.state = .verified ∧ old.evidence = none
        ∧ new.evidence ≠ none)

instance (old new : AgentRelease) : Decidable (boundUnchanged old new) :=
  inferInstanceAs (Decidable (_ ∧ (_ ∨ _)))

/-- `UPDATE catalog.agent_releases … WHERE release_id = $1`. The trigger
runs before the constraints. -/
def updateRelease (s : Catalog) (releaseID : String) (set : AgentRelease → AgentRelease) :
    Except CatalogError Catalog := do
  let updated := fun r : AgentRelease => r.releaseID = releaseID
  require (∀ r ∈ s.releases, updated r → (set r).Columns)
    (.dependency "transition Agent Release" (.column .releases))
  require (∀ r ∈ s.releases, updated r → boundUnchanged r (set r))
    (.dependency "transition Agent Release" .immutable)
  require (∀ r ∈ s.releases, updated r → (set r).Checks)
    (.dependency "transition Agent Release" (.check .releases))
  pure { s with releases := Table.update (fun r => r.releaseID) releaseID set s.releases }

/-- `TransitionRelease`, with the row it returns. -/
def transitionRelease (s : Catalog) (releaseID : String) (target : ReleaseState)
    (evidence : Option Digest) (clock : Time) : Except CatalogError (AgentRelease × Catalog) := do
  let current ← s.getRelease releaseID
  let committedAt := clock.truncateMicro
  let finish := fun (s : Catalog) (set : AgentRelease → AgentRelease) => do
    let s' ← s.updateRelease releaseID set
    pure (set current, s')
  match current.state, target with
  | .pendingVerification, .verified =>
      match evidence with
      | none => throw .releaseConflict
      | some digest =>
          finish s fun r => { r with
            state := .verified, updatedAt := committedAt, verifiedAt := some committedAt
            evidence := some digest }
  | .verified, .published => do
      let (sequence, s₁) ← s.advanceClock "advance trusted publication clock"
      let s₂ ← s₁.updateVersion current.versionKey "publish trusted Agent version"
        (setPublished clock sequence)
      finish s₂ fun r => { r with
        state := .published, updatedAt := committedAt, publishedAt := some committedAt }
  | .verified, .suspended | .published, .suspended => do
      let s₁ ← s.updateVersion current.versionKey "disable trusted Agent version"
        (setDisabled clock)
      finish s₁ fun r => { r with
        state := .suspended, updatedAt := committedAt, suspendedAt := some committedAt }
  | .verified, .revoked | .published, .revoked | .suspended, .revoked => do
      let s₁ ← s.updateVersion current.versionKey "disable trusted Agent version"
        (setDisabled clock)
      finish s₁ fun r => { r with
        state := .revoked, updatedAt := committedAt, revokedAt := some committedAt }
  | _, _ => throw .releaseConflict

/-! ## Trust -/

/-- `INSERT INTO catalog.providers … ON CONFLICT (provider_id) DO NOTHING`. -/
def claimProvider (s : Catalog) (row : Provider) : Except CatalogError Catalog := do
  writeRow row.Columns row.Checks .providers (.trustDependency "create provider")
  if s.providers.any fun p => p.providerID = row.providerID then pure s
  else pure { s with providers := s.providers ++ [row] }

def storedProvider (value : Provider) : Provider :=
  { value with
    verifiedAt := value.verifiedAt.map Time.truncateMicro
    createdAt := value.createdAt.truncateMicro
    updatedAt := value.updatedAt.truncateMicro }

/-- The row of a new binding: no evidence and no failure code. -/
def storedBinding (value : EndpointBinding) : EndpointBinding :=
  { value with
    evidence := none
    failureCode := none
    createdAt := value.createdAt.truncateMicro
    updatedAt := value.updatedAt.truncateMicro
    verifiedAt := value.verifiedAt.map Time.truncateMicro
    revokedAt := value.revokedAt.map Time.truncateMicro }

/-- `UPDATE catalog.agent_identities SET provider_id`, for an agent that no
provider has claimed. -/
def claimAgent (s : Catalog) (agentID providerID : String) : Catalog :=
  { s with
    identities := Table.update AgentIdentity.agentID agentID
      (fun i => { i with providerID := some providerID }) s.identities }

def insertBinding (s : Catalog) (row : EndpointBinding) : Except CatalogError Catalog := do
  writeRow row.Columns row.Checks .bindings (.trustDependency "create endpoint binding")
  require (∀ b ∈ s.bindings, b.bindingID ≠ row.bindingID) .trustConflict
  require ((∃ p ∈ s.providers, p.providerID = row.providerID)
      ∧ ∃ v ∈ s.versions, v.key = (row.agentID, row.agentCardVersion))
    (.trustDependency "create endpoint binding" (.reference .bindings))
  pure { s with bindings := s.bindings ++ [row] }

/-- `CreateBinding`, with the row it returns. -/
def createBinding (s : Catalog) (provider : Provider) (binding : EndpointBinding) :
    Except CatalogError (EndpointBinding × Catalog) := do
  let s₁ ← s.claimProvider (storedProvider provider)
  match s₁.providers.find? fun p => p.providerID = provider.providerID with
  | none => throw (.trustDependency "read provider" .scan)
  | some current => do
      require (current.ownerIdentity = provider.ownerIdentity) .forbidden
      require (current.verificationStatus ≠ .suspended) .forbidden
      match s₁.findIdentity binding.agentID with
      | none => throw .notFound
      | some identity => do
          require (∀ claimed ∈ identity.providerID, claimed = provider.providerID) .trustConflict
          let s₂ := if identity.providerID = none then
              s₁.claimAgent binding.agentID provider.providerID
            else s₁
          let s₃ ← s₂.insertBinding (storedBinding binding)
          pure (storedBinding binding, s₃)

def storedChallenge (value : VerificationChallenge) : VerificationChallenge :=
  { value with
    expiresAt := value.expiresAt.truncateMicro
    usedAt := value.usedAt.map Time.truncateMicro
    createdAt := value.createdAt.truncateMicro }

def createChallenge (s : Catalog) (challenge : VerificationChallenge) :
    Except CatalogError Catalog := do
  let row := storedChallenge challenge
  writeRow row.Columns row.Checks .challenges (.trustDependency "create verification challenge")
  require (∀ c ∈ s.challenges, c.challengeID ≠ row.challengeID) .trustConflict
  require (∃ b ∈ s.bindings, b.bindingID = row.bindingID)
    (.trustDependency "create verification challenge" (.reference .challenges))
  pure { s with challenges := s.challenges ++ [row] }

/-- `ReserveChallenge`, with the challenge and the binding it returns. -/
def reserveChallenge (s : Catalog) (bindingID challengeID : String) (now : Time) :
    Except CatalogError (VerificationChallenge × EndpointBinding × Catalog) := do
  match s.challenges.find? fun c => c.bindingID = bindingID ∧ c.challengeID = challengeID with
  | none => throw .challengeNotFound
  | some challenge => do
      require (challenge.usedAt = none) .challengeReused
      require (now < challenge.expiresAt) .challengeExpired
      match s.bindings.find? fun b => b.bindingID = bindingID with
      | none => throw (.trustDependency "read challenge binding" .scan)
      | some binding => do
          require (binding.verificationStatus ≠ .verified
            ∧ binding.verificationStatus ≠ .revoked) .trustConflict
          let used := fun c : VerificationChallenge => { c with usedAt := some now.truncateMicro }
          require (used challenge).Columns
            (.trustDependency "reserve verification challenge" (.column .challenges))
          pure ({ challenge with usedAt := some now }, binding,
            { s with
              challenges := Table.update VerificationChallenge.challengeID challengeID used
                s.challenges })

/-- `UPDATE catalog.endpoint_bindings … AND verification_status IN
('pending', 'failed')`. -/
def updateBinding (s : Catalog) (bindingID : String) (set : EndpointBinding → EndpointBinding) :
    Except CatalogError Catalog := do
  let updated := fun b : EndpointBinding => b.bindingID = bindingID
  writeRow (∀ b ∈ s.bindings, updated b → (set b).Columns)
    (∀ b ∈ s.bindings, updated b → (set b).Checks) .bindings
    (.trustDependency "update endpoint verification")
  pure { s with bindings := Table.update (fun b => b.bindingID) bindingID set s.bindings }

/-- The provider of a binding that was verified; one that is suspended
stops the transaction. -/
def verifyProvider (s : Catalog) (providerID : String) (clock : Time) :
    Except CatalogError Catalog := do
  let set := fun p : Provider => { p with
    verificationStatus := .verified
    verifiedAt := some clock.truncateMicro
    updatedAt := clock.truncateMicro }
  let updated := fun p : Provider =>
    p.providerID = providerID ∧ p.verificationStatus ≠ .suspended
  writeRow (∀ p ∈ s.providers, updated p → (set p).Columns)
    (∀ p ∈ s.providers, updated p → (set p).Checks) .providers
    (.trustDependency "verify provider")
  require ((s.providers.filter updated).length = 1) .forbidden
  pure { s with providers := s.providers.map fun p => if updated p then set p else p }

/-- `SetBindingVerification`, with the row it returns. -/
def setBindingVerification (s : Catalog) (bindingID : String) (status : VerificationStatus)
    (failureCode : Option String) (digest : Option Digest) (clock : Time) :
    Except CatalogError (EndpointBinding × Catalog) := do
  match s.bindings.find? fun b => b.bindingID = bindingID with
  | none => throw .bindingNotFound
  | some binding => do
      require (binding.verificationStatus = .pending ∨ binding.verificationStatus = .failed)
        .trustConflict
      let set := fun b : EndpointBinding => { b with
        verificationStatus := status
        evidence := digest
        failureCode := failureCode
        verifiedAt := if status = .verified then some clock.truncateMicro else none
        updatedAt := clock.truncateMicro }
      let s₁ ← s.updateBinding bindingID set
      let s₂ ← if status = .verified then s₁.verifyProvider binding.providerID clock else pure s₁
      pure (set binding, s₂)

/-! ## Runs of calls -/

inductive Call where
  | register (version : AgentVersion)
  | publish (agentID version callerID : String) (clock : Time)
  | disable (agentID version callerID : String) (clock : Time)
  | createRelease (value : AgentRelease)
  | transitionRelease (releaseID : String) (target : ReleaseState) (evidence : Option Digest)
      (clock : Time)
  | createBinding (provider : Provider) (binding : EndpointBinding)
  | createChallenge (challenge : VerificationChallenge)
  | reserveChallenge (bindingID challengeID : String) (now : Time)
  | setBindingVerification (bindingID : String) (status : VerificationStatus)
      (failureCode : Option String) (digest : Option Digest) (clock : Time)

def step (s : Catalog) : Call → Except CatalogError Catalog
  | .register version => s.register version
  | .publish agentID version callerID clock => s.publish agentID version callerID clock
  | .disable agentID version callerID clock => s.disable agentID version callerID clock
  | .createRelease value => Prod.snd <$> s.createRelease value
  | .transitionRelease releaseID target evidence clock =>
      Prod.snd <$> s.transitionRelease releaseID target evidence clock
  | .createBinding provider binding => Prod.snd <$> s.createBinding provider binding
  | .createChallenge challenge => s.createChallenge challenge
  | .reserveChallenge bindingID challengeID now =>
      (fun r => r.2.2) <$> s.reserveChallenge bindingID challengeID now
  | .setBindingVerification bindingID status failureCode digest clock =>
      Prod.snd <$> s.setBindingVerification bindingID status failureCode digest clock

/-- The state after the calls, in the order they were committed. -/
def run (s : Catalog) (calls : List Call) : Catalog := Transact.run step s calls

end Catalog

end Nekiro
