import Nekiro.AgentCard
import Nekiro.Hex
import Nekiro.Table
import Nekiro.WorkspaceStore

/-!
# The tables of the catalog

The schema `catalog` after migrations 001 to 005: the rows, what a column
admits (`Columns`) and what the CHECK constraints ask (`Checks`). A value
that a column refuses never reaches a constraint, so the two are apart.
Text in PostgreSQL holds no U+0000; a card's JSON is bytes and, as every
text here, valid UTF-8. A digest has 32 bytes by its type, as in the
program, so the length constraints of the schema have nothing to refuse.
-/

namespace Nekiro

open LedgerTables WorkspaceTables

/-- `[32]byte`. -/
abbrev Digest := { bytes : List UInt8 // bytes.length = 32 }

def zeros (n : Nat) : { bytes : List UInt8 // bytes.length = n } :=
  ⟨List.replicate n 0, List.length_replicate⟩

inductive PublicationStatus where
  | draft
  | published
  | disabled
  | other (text : String)
deriving Repr, DecidableEq

inductive ReleaseState where
  | draft
  | pendingVerification
  | verified
  | published
  | suspended
  | revoked
  | other (text : String)
deriving Repr, DecidableEq

inductive VerificationStatus where
  | unverified
  | pending
  | verified
  | failed
  | revoked
  | suspended
  | other (text : String)
deriving Repr, DecidableEq

def verificationMethodHTTPWellKnown : String := "http_well_known"

/-! ## Rows -/

/-- A row of `catalog.agent_identities`. -/
structure AgentIdentity where
  agentID : String
  ownerID : String
  createdAt : Time
  publicAgentID : String
  providerID : Option String
deriving Repr, DecidableEq

/-- A row of `catalog.agent_versions`. -/
structure VersionRow where
  agentID : String
  version : String
  schemaVersion : String
  card : Json.Bytes
  cardName : String
  cardDescription : String
  cardDigest : Digest
  status : PublicationStatus
  registeredAt : Time
  publishedAt : Option Time
  publicationSequence : Option Int
  disabledAt : Option Time
  legacyUnverified : Bool
deriving Repr, DecidableEq

def VersionRow.key (v : VersionRow) : String × String := (v.agentID, v.version)

/-- A row of `catalog.agent_version_capabilities`. -/
structure CapabilityRow where
  agentID : String
  version : String
  capabilityID : String
deriving Repr, DecidableEq

/-- What a release is bound to when it is created. -/
structure ReleaseFacts where
  releaseID : String
  providerID : String
  agentID : String
  agentCardVersion : String
  cardDigest : Digest
  endpointBindingID : String
  endpointOrigin : String
  endpointPath : String
  verificationMethod : String
  createdAt : Time
deriving Repr, DecidableEq

/-- `catalog.AgentRelease`, which is also a row of
`catalog.agent_releases`. -/
structure AgentRelease extends ReleaseFacts where
  evidence : Option Digest
  state : ReleaseState
  updatedAt : Time
  verifiedAt : Option Time
  publishedAt : Option Time
  suspendedAt : Option Time
  revokedAt : Option Time
deriving Repr, DecidableEq

/-- The version that a release is of. -/
def ReleaseFacts.versionKey (r : ReleaseFacts) : String × String := (r.agentID, r.agentCardVersion)

/-- `catalog.Provider`, also a row of `catalog.providers`. -/
structure Provider where
  providerID : String
  ownerIdentity : String
  verificationStatus : VerificationStatus
  verificationMethod : String
  verifiedAt : Option Time
  createdAt : Time
  updatedAt : Time
deriving Repr, DecidableEq

/-- What a binding is bound to when it is created. -/
structure BindingFacts where
  bindingID : String
  providerID : String
  agentID : String
  agentCardVersion : String
  endpoint : String
  origin : String
  path : String
  verificationMethod : String
  createdAt : Time
deriving Repr, DecidableEq

/-- `catalog.EndpointBinding`, also a row of `catalog.endpoint_bindings`. -/
structure EndpointBinding extends BindingFacts where
  verificationStatus : VerificationStatus
  evidence : Option Digest
  failureCode : Option String
  updatedAt : Time
  verifiedAt : Option Time
  revokedAt : Option Time
deriving Repr, DecidableEq

/-- `catalog.VerificationChallenge`, also a row of
`catalog.verification_challenges`. -/
structure VerificationChallenge where
  challengeID : String
  bindingID : String
  proofDigest : Digest
  expiresAt : Time
  usedAt : Option Time
  createdAt : Time
deriving Repr, DecidableEq

/-! ## Columns and constraints -/

/-- A `varchar(n)` value. -/
def shortText (n : Nat) (s : String) : Prop := text s ∧ varchar n s

instance (n : Nat) (s : String) : Decidable (shortText n s) := inferInstanceAs (Decidable (_ ∧ _))

/-- `^agt_[0-9a-f]{32}$`. -/
def publicAgentIDPattern : Regex :=
  open Regex in
  seq (char 'a') (seq (char 'g') (seq (char 't') (seq (char '_')
    ((chars Hex.isLower).exactly 32))))

@[mk_iff]
structure AgentIdentity.Columns (i : AgentIdentity) : Prop where
  agentID : shortText 128 i.agentID
  ownerID : shortText 128 i.ownerID
  createdAt : timestamptz i.createdAt
  publicAgentID : shortText 36 i.publicAgentID

instance (i : AgentIdentity) : Decidable i.Columns :=
  decidable_of_iff _ (AgentIdentity.columns_iff i).symm

@[mk_iff]
structure AgentIdentity.Checks (i : AgentIdentity) : Prop where
  agentID : identifierFormat i.agentID
  ownerID : identifierFormat i.ownerID
  publicAgentID : publicAgentIDPattern.matchText i.publicAgentID = true

instance (i : AgentIdentity) : Decidable i.Checks :=
  decidable_of_iff _ (AgentIdentity.checks_iff i).symm

def PublicationStatus.text : PublicationStatus → String
  | draft => "draft"
  | published => "published"
  | disabled => "disabled"
  | other text => text

@[mk_iff]
structure VersionRow.Columns (v : VersionRow) : Prop where
  agentID : shortText 128 v.agentID
  version : text v.version
  schemaVersion : shortText 16 v.schemaVersion
  card : 0x00 ∉ v.card
  cardName : text v.cardName
  cardDescription : text v.cardDescription
  status : shortText 16 v.status.text
  registeredAt : timestamptz v.registeredAt
  publishedAt : ∀ t ∈ v.publishedAt, timestamptz t
  disabledAt : ∀ t ∈ v.disabledAt, timestamptz t

instance (v : VersionRow) : Decidable v.Columns :=
  decidable_of_iff _ (VersionRow.columns_iff v).symm

/-- `agent_versions_state_timestamps`. -/
def VersionRow.stateTimestamps (v : VersionRow) : Prop :=
  (v.status = .draft ∧ v.publishedAt = none ∧ v.publicationSequence = none ∧ v.disabledAt = none)
    ∨ (v.status = .published ∧ v.publishedAt ≠ none ∧ v.publicationSequence ≠ none
      ∧ v.disabledAt = none)
    ∨ (v.status = .disabled ∧ v.disabledAt ≠ none
      ∧ (v.publishedAt = none ↔ v.publicationSequence = none))

instance (v : VersionRow) : Decidable v.stateTimestamps := inferInstanceAs (Decidable (_ ∨ _ ∨ _))

@[mk_iff]
structure VersionRow.Checks (v : VersionRow) : Prop where
  agentID : identifierFormat v.agentID
  schemaVersion : v.schemaVersion = "0.2"
  status : v.status = .draft ∨ v.status = .published ∨ v.status = .disabled
  stateTimestamps : v.stateTimestamps

instance (v : VersionRow) : Decidable v.Checks := decidable_of_iff _ (VersionRow.checks_iff v).symm

@[mk_iff]
structure CapabilityRow.Columns (c : CapabilityRow) : Prop where
  agentID : shortText 128 c.agentID
  version : text c.version
  capabilityID : shortText 128 c.capabilityID

instance (c : CapabilityRow) : Decidable c.Columns :=
  decidable_of_iff _ (CapabilityRow.columns_iff c).symm

def CapabilityRow.Checks (c : CapabilityRow) : Prop := identifierFormat c.capabilityID

instance (c : CapabilityRow) : Decidable c.Checks :=
  inferInstanceAs (Decidable (identifierFormat _))

def ReleaseState.text : ReleaseState → String
  | draft => "draft"
  | pendingVerification => "pending_verification"
  | verified => "verified"
  | published => "published"
  | suspended => "suspended"
  | revoked => "revoked"
  | other text => text

@[mk_iff]
structure AgentRelease.Columns (r : AgentRelease) : Prop where
  releaseID : shortText 128 r.releaseID
  providerID : shortText 128 r.providerID
  agentID : shortText 128 r.agentID
  agentCardVersion : text r.agentCardVersion
  endpointBindingID : shortText 128 r.endpointBindingID
  endpointOrigin : text r.endpointOrigin
  endpointPath : text r.endpointPath
  verificationMethod : shortText 64 r.verificationMethod
  state : shortText 32 r.state.text
  createdAt : timestamptz r.createdAt
  updatedAt : timestamptz r.updatedAt
  times : ∀ t ∈ [r.verifiedAt, r.publishedAt, r.suspendedAt, r.revokedAt],
    ∀ time ∈ t, timestamptz time

instance (r : AgentRelease) : Decidable r.Columns :=
  decidable_of_iff _ (AgentRelease.columns_iff r).symm

/-- `agent_releases_state_timestamps`. -/
def AgentRelease.stateTimestamps (r : AgentRelease) : Prop :=
  ((r.state = .draft ∨ r.state = .pendingVerification) ∧ r.evidence = none ∧ r.verifiedAt = none
      ∧ r.publishedAt = none ∧ r.suspendedAt = none ∧ r.revokedAt = none)
    ∨ (r.state = .verified ∧ r.evidence ≠ none ∧ r.verifiedAt ≠ none ∧ r.publishedAt = none
      ∧ r.suspendedAt = none ∧ r.revokedAt = none)
    ∨ (r.state = .published ∧ r.evidence ≠ none ∧ r.verifiedAt ≠ none ∧ r.publishedAt ≠ none
      ∧ r.suspendedAt = none ∧ r.revokedAt = none)
    ∨ (r.state = .suspended ∧ r.evidence ≠ none ∧ r.verifiedAt ≠ none ∧ r.suspendedAt ≠ none
      ∧ r.revokedAt = none)
    ∨ (r.state = .revoked ∧ r.evidence ≠ none ∧ r.verifiedAt ≠ none ∧ r.revokedAt ≠ none)

instance (r : AgentRelease) : Decidable r.stateTimestamps :=
  inferInstanceAs (Decidable (_ ∨ _ ∨ _ ∨ _ ∨ _))

@[mk_iff]
structure AgentRelease.Checks (r : AgentRelease) : Prop where
  releaseID : identifierFormat r.releaseID
  providerID : identifierFormat r.providerID
  agentID : identifierFormat r.agentID
  method : r.verificationMethod = verificationMethodHTTPWellKnown
  timestampOrder : r.createdAt ≤ r.updatedAt
  stateTimestamps : r.stateTimestamps

instance (r : AgentRelease) : Decidable r.Checks :=
  decidable_of_iff _ (AgentRelease.checks_iff r).symm

def VerificationStatus.text : VerificationStatus → String
  | unverified => "unverified"
  | pending => "pending"
  | verified => "verified"
  | failed => "failed"
  | revoked => "revoked"
  | suspended => "suspended"
  | other text => text

@[mk_iff]
structure Provider.Columns (p : Provider) : Prop where
  providerID : shortText 128 p.providerID
  ownerIdentity : shortText 128 p.ownerIdentity
  status : shortText 16 p.verificationStatus.text
  method : shortText 64 p.verificationMethod
  verifiedAt : ∀ t ∈ p.verifiedAt, timestamptz t
  createdAt : timestamptz p.createdAt
  updatedAt : timestamptz p.updatedAt

instance (p : Provider) : Decidable p.Columns := decidable_of_iff _ (Provider.columns_iff p).symm

@[mk_iff]
structure Provider.Checks (p : Provider) : Prop where
  providerID : identifierFormat p.providerID
  ownerIdentity : identifierFormat p.ownerIdentity
  method : p.verificationMethod = verificationMethodHTTPWellKnown
  stateTimestamps : (p.verificationStatus = .unverified ∧ p.verifiedAt = none)
    ∨ (p.verificationStatus = .verified ∧ p.verifiedAt ≠ none)
    ∨ p.verificationStatus = .suspended

instance (p : Provider) : Decidable p.Checks := decidable_of_iff _ (Provider.checks_iff p).symm

@[mk_iff]
structure EndpointBinding.Columns (b : EndpointBinding) : Prop where
  bindingID : shortText 128 b.bindingID
  providerID : shortText 128 b.providerID
  agentID : shortText 128 b.agentID
  agentCardVersion : text b.agentCardVersion
  endpoint : text b.endpoint
  origin : text b.origin
  path : text b.path
  method : shortText 64 b.verificationMethod
  status : shortText 16 b.verificationStatus.text
  failureCode : ∀ code ∈ b.failureCode, shortText 64 code
  createdAt : timestamptz b.createdAt
  updatedAt : timestamptz b.updatedAt
  times : ∀ t ∈ [b.verifiedAt, b.revokedAt], ∀ time ∈ t, timestamptz time

instance (b : EndpointBinding) : Decidable b.Columns :=
  decidable_of_iff _ (EndpointBinding.columns_iff b).symm

/-- `endpoint_bindings_state_timestamps`. -/
def EndpointBinding.stateTimestamps (b : EndpointBinding) : Prop :=
  (b.verificationStatus = .pending ∧ b.evidence = none ∧ b.failureCode = none
      ∧ b.verifiedAt = none ∧ b.revokedAt = none)
    ∨ (b.verificationStatus = .verified ∧ b.evidence ≠ none ∧ b.failureCode = none
      ∧ b.verifiedAt ≠ none ∧ b.revokedAt = none)
    ∨ (b.verificationStatus = .failed ∧ b.evidence = none ∧ b.failureCode ≠ none
      ∧ b.verifiedAt = none ∧ b.revokedAt = none)
    ∨ (b.verificationStatus = .revoked ∧ b.evidence = none ∧ b.failureCode = none
      ∧ b.verifiedAt = none ∧ b.revokedAt ≠ none)

instance (b : EndpointBinding) : Decidable b.stateTimestamps :=
  inferInstanceAs (Decidable (_ ∨ _ ∨ _ ∨ _))

@[mk_iff]
structure EndpointBinding.Checks (b : EndpointBinding) : Prop where
  bindingID : identifierFormat b.bindingID
  agentID : identifierFormat b.agentID
  method : b.verificationMethod = verificationMethodHTTPWellKnown
  stateTimestamps : b.stateTimestamps

instance (b : EndpointBinding) : Decidable b.Checks :=
  decidable_of_iff _ (EndpointBinding.checks_iff b).symm

@[mk_iff]
structure VerificationChallenge.Columns (c : VerificationChallenge) : Prop where
  challengeID : shortText 128 c.challengeID
  bindingID : shortText 128 c.bindingID
  expiresAt : timestamptz c.expiresAt
  usedAt : ∀ t ∈ c.usedAt, timestamptz t
  createdAt : timestamptz c.createdAt

instance (c : VerificationChallenge) : Decidable c.Columns :=
  decidable_of_iff _ (VerificationChallenge.columns_iff c).symm

def VerificationChallenge.Checks (c : VerificationChallenge) : Prop :=
  identifierFormat c.challengeID

instance (c : VerificationChallenge) : Decidable c.Checks :=
  inferInstanceAs (Decidable (identifierFormat _))

/-- The committed rows, in insertion order, and the publication clock. -/
structure Catalog where
  identities : List AgentIdentity
  versions : List VersionRow
  capabilities : List CapabilityRow
  releases : List AgentRelease
  providers : List Provider
  bindings : List EndpointBinding
  challenges : List VerificationChallenge
  lastSequence : Int
deriving Repr, DecidableEq

def Catalog.empty : Catalog := ⟨[], [], [], [], [], [], [], 0⟩

end Nekiro
