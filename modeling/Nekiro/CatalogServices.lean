import Nekiro.AgentCardContract
import Nekiro.EndpointPolicy
import Nekiro.Interleaving
import Nekiro.Sha256

/-!
# The catalog services

`Service`, `TrustService` and `ReleaseService` as programs over the catalog
store (`Interleaving`). A store call is one query, since it is one
transaction; a reading of the clock, a new identifier, a lookup and the
exchange with an endpoint are the others, and nothing is assumed about
their answers. Calls of many clients run side by side, so between two
queries of a call the catalog is changed by others.

`tick` says which reading of the clock may follow which. A context that
ends only makes a lookup, an exchange or a store call fail.
-/

namespace Nekiro

open Json (Bytes utf8)
open Strings (UnicodeCase)

/-- `sha256.Sum256`. -/
def sha256 (message : Bytes) : Digest := ⟨Sha256.sum message, Sha256.length_sum message⟩

/-- `catalog.ValidIdentifier`. -/
def validCatalogIdentifier (value : String) : Prop := safeIdentifierPattern.matchText value = true

instance (value : String) : Decidable (validCatalogIdentifier value) :=
  inferInstanceAs (Decidable (_ = true))

theorem ne_empty_of_validCatalogIdentifier {value : String} (h : validCatalogIdentifier value) :
    value ≠ "" := by
  rintro rfl
  revert h
  decide

/-- `catalog.ValidPublicAgentID`. -/
def validPublicAgentID (value : String) : Prop := publicAgentIDPattern.matchText value = true

instance (value : String) : Decidable (validPublicAgentID value) :=
  inferInstanceAs (Decidable (_ = true))

def validAgentVersionIdentity [Semver] (agentID version : String) : Prop :=
  validCatalogIdentifier agentID ∧ Semver.strictNewVersion version = true

instance [Semver] (agentID version : String) :
    Decidable (validAgentVersionIdentity agentID version) :=
  inferInstanceAs (Decidable (_ ∧ _))

/-- The text of a URL's bytes. -/
def textOf (bytes : Bytes) : String := String.ofList (Strings.runes bytes)

/-! ## The store's answers -/

namespace Catalog

/-- What a store call returns when it commits. -/
def Call.Reply : Call → Type
  | .register _ | .publish .. | .disable .. | .createChallenge _ => Unit
  | .createRelease _ | .transitionRelease .. => AgentRelease
  | .createBinding .. | .setBindingVerification .. => EndpointBinding
  | .reserveChallenge .. => VerificationChallenge × EndpointBinding

def perform (s : Catalog) : (call : Call) → Except CatalogError (call.Reply × Catalog)
  | .register version => (fun s' => ((), s')) <$> s.register version
  | .publish agentID version callerID clock =>
      (fun s' => ((), s')) <$> s.publish agentID version callerID clock
  | .disable agentID version callerID clock =>
      (fun s' => ((), s')) <$> s.disable agentID version callerID clock
  | .createRelease value => s.createRelease value
  | .transitionRelease releaseID target evidence clock =>
      s.transitionRelease releaseID target evidence clock
  | .createBinding provider binding => s.createBinding provider binding
  | .createChallenge challenge => (fun s' => ((), s')) <$> s.createChallenge challenge
  | .reserveChallenge bindingID challengeID now =>
      (fun r => ((r.1, r.2.1), r.2.2)) <$> s.reserveChallenge bindingID challengeID now
  | .setBindingVerification bindingID status failureCode digest clock =>
      s.setBindingVerification bindingID status failureCode digest clock

/-- The state that a call leaves is that of `step`. -/
theorem perform_step (s : Catalog) (call : Call) : Prod.snd <$> s.perform call = s.step call := by
  have hunit : ∀ x : Except CatalogError Catalog, Prod.snd <$> (fun s' => ((), s')) <$> x = x := by
    intro x
    cases x <;> rfl
  have hmap : ∀ {α β γ : Type} (f : β → γ) (g : α → β) (x : Except CatalogError α),
      f <$> g <$> x = (fun a => f (g a)) <$> x := by
    intro α β γ f g x
    cases x <;> rfl
  cases call with
  | register => exact hunit _
  | publish => exact hunit _
  | disable => exact hunit _
  | createRelease => rfl
  | transitionRelease => rfl
  | createBinding => rfl
  | createChallenge => exact hunit _
  | reserveChallenge => exact hmap _ _ _
  | setBindingVerification => rfl

end Catalog

/-! ## Queries -/

/-- Random bytes. -/
abbrev Random (n : Nat) := { bytes : List UInt8 // bytes.length = n }

inductive CatalogQuery where
  | clock
  | newPublicAgentID
  | newID
  | newProof
  | lookupIP (host : Bytes)
  | exchange (endpoint : Endpoint) (challengeID : String) (destination : IP)
  | get (agentID version : String)
  | getRelease (releaseID : String)
  | getProvider (providerID : String)
  | getBinding (providerID bindingID : String)
  | write (call : Catalog.Call)

/-- The query changes neither the catalog nor the clock. -/
def CatalogQuery.reads : CatalogQuery → Bool
  | clock => false
  | write _ => false
  | _ => true

/-- An answer; none from a generator or a resolver that failed. -/
def CatalogQuery.Answer : CatalogQuery → Type
  | clock => Time
  | newPublicAgentID => Option String
  | newID => Option (Random 16)
  | newProof => Option (Random 32)
  | lookupIP _ => Option (List IP)
  | exchange .. => Exchange
  | get .. => Except CatalogError AgentVersion
  | getRelease _ => Except CatalogError AgentRelease
  | getProvider _ => Except CatalogError Provider
  | getBinding .. => Except CatalogError EndpointBinding
  | write call => Except CatalogError call.Reply

/-- What the surroundings would answer now. -/
structure Surroundings where
  clock : Time := 0
  publicAgentID : Option String := none
  id : Option (Random 16) := none
  proof : Option (Random 32) := none
  addresses : Option (List IP) := none
  exchange : Exchange := .failed

/-- The catalog, and the last reading of the clock. -/
structure CatalogWorld where
  catalog : Catalog
  now : Time

def CatalogQuery.respond (tick : Time → Time → Bool) :
    (q : CatalogQuery) → Surroundings → CatalogWorld → Option (q.Answer × CatalogWorld)
  | clock, e, w => if tick w.now e.clock then some (e.clock, { w with now := e.clock }) else none
  | newPublicAgentID, e, w => some (e.publicAgentID, w)
  | newID, e, w => some (e.id, w)
  | newProof, e, w => some (e.proof, w)
  | lookupIP _, e, w => some (e.addresses, w)
  | exchange .., e, w => some (e.exchange, w)
  | get agentID version, _, w => some (w.catalog.get agentID version, w)
  | getRelease releaseID, _, w => some (w.catalog.getRelease releaseID, w)
  | getProvider providerID, _, w => some (w.catalog.getProvider providerID, w)
  | getBinding providerID bindingID, _, w => some (w.catalog.getBinding providerID bindingID, w)
  | write call, _, w =>
      match w.catalog.perform call with
      | .ok (reply, s) => some (.ok reply, { w with catalog := s })
      | .error err => some (.error err, w)

/-- What a service call returns when it succeeds. A registration, a
publication and a disabling return the catalog entry, which is left out. -/
inductive CatalogResponse where
  | done
  | binding (value : EndpointBinding)
  | challenge (challengeID bindingID challengeURL proof : String) (expiresAt : Time)
  | release (value : AgentRelease)

abbrev CatalogProgram := Fallible CatalogQuery CatalogQuery.Answer CatalogError

open Fallible

/-- The answer of a generator. -/
def generated {α : Type} (err : CatalogError) : Option α → Except CatalogError α
  | none => .error err
  | some a => .ok a

/-- `newTrustID`. -/
def trustID (kind : String) (bytes : Random 16) : String := kind ++ "-" ++ Hex.encode bytes.1

abbrev readClock : CatalogProgram Time := ask CatalogQuery.clock

abbrev readProvider (providerID : String) : CatalogProgram Provider :=
  call (.getProvider providerID) id

abbrev readBinding (providerID bindingID : String) : CatalogProgram EndpointBinding :=
  call (.getBinding providerID bindingID) id

/-! ## Registration and the legacy publication -/

namespace Service

def register [CardFormats] (caller : String) (requestJSON : Bytes) :
    CatalogProgram CatalogResponse :=
  match decodeRegisterAgentRequest requestJSON with
  | .error _ => throw .invalid
  | .ok card => do
      require (caller = card.owner.id) .forbidden
      match card.marshal with
      | none => throw (.dependency "canonicalize Agent Card" .encoding)
      | some cardJSON => do
          let publicAgentID ← call .newPublicAgentID
            (generated (.dependency "generate public Agent ID" .identifier))
          require (validPublicAgentID publicAgentID)
            (.dependency "generated public Agent ID is invalid" .identifier)
          let registeredAt ← readClock
          call (.write (.register ⟨publicAgentID, card, cardJSON, sha256 cardJSON, .draft,
            registeredAt, none, none, none, false, none⟩)) id
          pure .done

def publish [Semver] (caller agentID version : String) : CatalogProgram CatalogResponse := do
  require (validAgentVersionIdentity agentID version) .invalid
  let clock ← readClock
  call (.write (.publish agentID version caller clock)) id
  pure .done

def disable [Semver] (caller agentID version : String) : CatalogProgram CatalogResponse := do
  require (validAgentVersionIdentity agentID version) .invalid
  let clock ← readClock
  call (.write (.disable agentID version caller clock)) id
  pure .done

end Service

/-! ## Trust -/

structure TrustConfig where
  policy : EndpointPolicy
  challengeTTL : Time

namespace TrustService

variable [UnicodeCase] [Semver]

def authorizeProvider (caller providerID : String) : CatalogProgram Unit := do
  let provider ← readProvider providerID
  require (provider.ownerIdentity = caller) .forbidden
  require (provider.verificationStatus ≠ .suspended) .forbidden

def createBinding (caller providerID agentID version endpoint method : String) :
    CatalogProgram CatalogResponse := do
  require (validCatalogIdentifier providerID ∧ validAgentVersionIdentity agentID version
    ∧ validCatalogIdentifier caller ∧ method = verificationMethodHTTPWellKnown) .invalid
  match parseEndpoint (utf8 endpoint) with
  | none => throw .endpointInvalid
  | some parsed => do
      let agentVersion ← call (.get agentID version) id
      match parseEndpoint (utf8 agentVersion.card.protocol.endpoint) with
      | none => throw (.trustDependency "read stored Agent endpoint" .encoding)
      | some cardEndpoint => do
          require (cardEndpoint.canonical = parsed.canonical) .endpointInvalid
          let now ← readClock
          let bytes ← call .newID
            (generated (.trustDependency "generate endpoint binding id" .identifier))
          let binding ← call (.write (.createBinding
            ⟨providerID, caller, .unverified, method, none, now, now⟩
            ⟨⟨trustID "binding" bytes, providerID, agentID, version, textOf parsed.canonical,
              textOf parsed.origin, textOf parsed.path, method, now⟩,
              .pending, none, none, now, none, none⟩)) id
          pure (.binding binding)

def createChallenge (config : TrustConfig) (caller providerID bindingID : String) :
    CatalogProgram CatalogResponse := do
  require (validCatalogIdentifier providerID ∧ validCatalogIdentifier bindingID
    ∧ validCatalogIdentifier caller) .invalid
  authorizeProvider caller providerID
  let binding ← readBinding providerID bindingID
  require (binding.verificationStatus ≠ .verified ∧ binding.verificationStatus ≠ .revoked)
    .trustConflict
  let now ← readClock
  let bytes ← call .newID
    (generated (.trustDependency "generate verification challenge id" .identifier))
  let proofBytes ← call .newProof
    (generated (.trustDependency "generate verification proof" .identifier))
  let challengeID := trustID "challenge" bytes
  let proof := Hex.encode proofBytes.1
  let expiresAt := now + config.challengeTTL
  call (.write (.createChallenge
    ⟨challengeID, binding.bindingID, sha256 (utf8 proof), expiresAt, none, now⟩)) id
  pure (.challenge challengeID binding.bindingID
    (binding.origin ++ "/.well-known/nekiro/challenges/" ++ challengeID) proof expiresAt)

/-- `failVerification`, with the error that it returns. -/
def recordFailure (bindingID : String) (cause : CatalogError) : CatalogProgram CatalogError :=
  match verificationFailureCode cause with
  | none => pure cause
  | some code => do
      let clock ← readClock
      let recorded ← ask (CatalogQuery.write
        (.setBindingVerification bindingID .failed (some code) none clock))
      match recorded with
      | .ok _ => pure cause
      | .error .trustConflict => pure .trustConflict
      | .error _ => pure (.trustDependency "record verification failure" .wrapped)

def failVerification {α : Type} (bindingID : String) (cause : CatalogError) : CatalogProgram α := do
  let err ← recordFailure bindingID cause
  throw err

/-- What a failure is recorded as: too late, if the challenge has expired
meanwhile. -/
def failUnlessExpired {α : Type} (bindingID : String) (expiresAt : Time) (cause : CatalogError) :
    CatalogProgram α := do
  let clock ← readClock
  if expiresAt ≤ clock then failVerification bindingID .challengeExpired
  else failVerification bindingID cause

/-- The calls after a challenge was reserved. -/
def verify (config : TrustConfig) (bindingID challengeID : String) (endpoint : Endpoint)
    (challenge : VerificationChallenge) : CatalogProgram CatalogResponse := do
  -- the time left bounds the context of the lookup and of the exchange
  let _ ← readClock
  let addresses ← ask (CatalogQuery.lookupIP endpoint.host)
  match config.policy.admit endpoint addresses with
  | .error err => failUnlessExpired bindingID challenge.expiresAt err
  | .ok [] => failUnlessExpired bindingID challenge.expiresAt .endpointUnavailable
  | .ok (destination :: _) => do
      let exchange ← ask (CatalogQuery.exchange endpoint challengeID destination)
      match Exchange.proof exchange with
      | .error err => failUnlessExpired bindingID challenge.expiresAt err
      | .ok proof => do
          let clock ← readClock
          if challenge.expiresAt ≤ clock then failVerification bindingID .challengeExpired
          else if sha256 proof ≠ challenge.proofDigest then failVerification bindingID .wrongProof
          else do
            let verifiedAt ← readClock
            let binding ← call (.write (.setBindingVerification bindingID .verified none
              (some (sha256 proof)) verifiedAt)) id
            pure (.binding binding)

def completeChallenge (config : TrustConfig) (caller providerID bindingID challengeID : String) :
    CatalogProgram CatalogResponse := do
  require (validCatalogIdentifier providerID ∧ validCatalogIdentifier bindingID
    ∧ validCatalogIdentifier challengeID ∧ validCatalogIdentifier caller) .invalid
  authorizeProvider caller providerID
  let binding ← readBinding providerID bindingID
  require (binding.verificationStatus ≠ .revoked ∧ binding.verificationStatus ≠ .verified)
    .trustConflict
  match parseEndpoint (utf8 binding.endpoint) with
  | none => throw .endpointInvalid
  | some endpoint => do
      let clock ← readClock
      let reserved ← ask (CatalogQuery.write (.reserveChallenge bindingID challengeID clock))
      match reserved with
      | .ok (challenge, _) => verify config bindingID challengeID endpoint challenge
      -- a failure that cannot be recorded any more is not reported
      | .error .challengeExpired => do
          let err ← recordFailure bindingID .challengeExpired
          if err = .trustConflict then throw .challengeExpired else throw err
      | .error err => throw err

end TrustService

/-! ## Releases -/

namespace ReleaseService

variable [Semver]

def authorizeBinding (caller providerID agentID version bindingID : String) :
    CatalogProgram (Provider × EndpointBinding × AgentVersion) := do
  let provider ← readProvider providerID
  require (provider.ownerIdentity = caller) .forbidden
  require (provider.verificationStatus ≠ .suspended) .forbidden
  let binding ← readBinding providerID bindingID
  require (binding.agentID = agentID ∧ binding.agentCardVersion = version) .releaseInvalid
  let agentVersion ← call (.get agentID version) id
  pure (provider, binding, agentVersion)

def createRelease (caller providerID agentID version bindingID : String) :
    CatalogProgram CatalogResponse := do
  require (validCatalogIdentifier caller ∧ validCatalogIdentifier providerID
    ∧ validCatalogIdentifier agentID ∧ validAgentVersionIdentity agentID version
    ∧ validCatalogIdentifier bindingID) .releaseInvalid
  let (provider, binding, agentVersion) ← authorizeBinding caller providerID agentID
    version bindingID
  require (binding.verificationStatus = .pending ∨ binding.verificationStatus = .verified)
    .releaseConflict
  let verified := binding.verificationStatus = .verified
  let now ← readClock
  let bytes ← call .newID
    (generated (.dependency "generate Agent Release identifier" .identifier))
  let release ← call (.write (.createRelease
    ⟨⟨trustID "release" bytes, provider.providerID, agentID, version, agentVersion.cardDigest,
      binding.bindingID, binding.origin, binding.path, binding.verificationMethod, now⟩,
      binding.evidence, if verified then .verified else .pendingVerification, now,
      if verified then binding.verifiedAt else none, none, none, none⟩)) id
  pure (.release release)

def authorizeRelease (caller releaseID : String) : CatalogProgram AgentRelease := do
  require (validCatalogIdentifier caller ∧ validCatalogIdentifier releaseID) .releaseInvalid
  let release ← call (.getRelease releaseID) id
  let provider ← readProvider release.providerID
  require (provider.ownerIdentity = caller) .forbidden
  pure release

def requireCurrentVerifiedBinding (release : AgentRelease) : CatalogProgram Unit := do
  let provider ← readProvider release.providerID
  require (provider.verificationStatus = .verified) .releaseConflict
  let binding ← readBinding release.providerID release.endpointBindingID
  require (binding.verificationStatus = .verified ∧ binding.agentID = release.agentID
    ∧ binding.agentCardVersion = release.agentCardVersion
    ∧ binding.origin = release.endpointOrigin ∧ binding.path = release.endpointPath
    ∧ binding.evidence ≠ none) .releaseConflict
  require ((release.state = .pendingVerification ∧ release.evidence = none)
    ∨ (release.evidence ≠ none ∧ release.evidence = binding.evidence)) .releaseConflict

def transitionRelease (releaseID : String) (target : ReleaseState) (evidence : Option Digest) :
    CatalogProgram CatalogResponse := do
  let clock ← readClock
  let release ← call (.write (.transitionRelease releaseID target evidence clock)) id
  pure (.release release)

def verifyRelease (caller releaseID : String) : CatalogProgram CatalogResponse := do
  let release ← authorizeRelease caller releaseID
  require (release.state = .pendingVerification) .releaseConflict
  requireCurrentVerifiedBinding release
  let binding ← readBinding release.providerID release.endpointBindingID
  require (binding.evidence ≠ none) .releaseConflict
  transitionRelease releaseID .verified binding.evidence

def publishRelease (caller releaseID : String) : CatalogProgram CatalogResponse := do
  let release ← authorizeRelease caller releaseID
  require (release.state = .verified) .releaseConflict
  requireCurrentVerifiedBinding release
  transitionRelease releaseID .published none

def suspendRelease (caller releaseID : String) : CatalogProgram CatalogResponse := do
  let release ← authorizeRelease caller releaseID
  require (release.state = .verified ∨ release.state = .published) .releaseConflict
  transitionRelease releaseID .suspended none

def revokeRelease (caller releaseID : String) : CatalogProgram CatalogResponse := do
  let release ← authorizeRelease caller releaseID
  require (release.state = .verified ∨ release.state = .published ∨ release.state = .suspended)
    .releaseConflict
  transitionRelease releaseID .revoked none

end ReleaseService

/-! ## Calls side by side -/

/-- A call of a service, by an authenticated caller. -/
inductive CatalogOp where
  | register (caller : String) (requestJSON : Bytes)
  | publish (caller agentID version : String)
  | disable (caller agentID version : String)
  | createBinding (caller providerID agentID version endpoint method : String)
  | createChallenge (caller providerID bindingID : String)
  | completeChallenge (caller providerID bindingID challengeID : String)
  | createRelease (caller providerID agentID version bindingID : String)
  | verifyRelease (caller releaseID : String)
  | publishRelease (caller releaseID : String)
  | suspendRelease (caller releaseID : String)
  | revokeRelease (caller releaseID : String)
deriving Repr, DecidableEq

variable [UnicodeCase] [Semver] [CardFormats]

def CatalogOp.program (config : TrustConfig) : CatalogOp → CatalogProgram CatalogResponse
  | register caller requestJSON => Service.register caller requestJSON
  | publish caller agentID version => Service.publish caller agentID version
  | disable caller agentID version => Service.disable caller agentID version
  | createBinding caller providerID agentID version endpoint method =>
      TrustService.createBinding caller providerID agentID version endpoint method
  | createChallenge caller providerID bindingID =>
      TrustService.createChallenge config caller providerID bindingID
  | completeChallenge caller providerID bindingID challengeID =>
      TrustService.completeChallenge config caller providerID bindingID challengeID
  | createRelease caller providerID agentID version bindingID =>
      ReleaseService.createRelease caller providerID agentID version bindingID
  | verifyRelease caller releaseID => ReleaseService.verifyRelease caller releaseID
  | publishRelease caller releaseID => ReleaseService.publishRelease caller releaseID
  | suspendRelease caller releaseID => ReleaseService.suspendRelease caller releaseID
  | revokeRelease caller releaseID => ReleaseService.revokeRelease caller releaseID

/-- The catalog with the calls that were started on it. -/
abbrev CatalogPool :=
  Pool CatalogQuery CatalogQuery.Answer (Except CatalogError CatalogResponse) CatalogOp CatalogWorld

def CatalogPool.run (tick : Time → Time → Bool) (config : TrustConfig) (p : CatalogPool)
    (moves : List (Move CatalogOp Surroundings)) : Option CatalogPool :=
  Pool.run (CatalogQuery.respond tick) (fun op => (op.program config).run) p moves

end Nekiro
