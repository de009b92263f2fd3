import Nekiro.CatalogServices
import Nekiro.CatalogTrust

/-!
# The catalogs that the services reach

The store takes more than the services give it: any digest, any card, any
state of a new release. `Admits` says what a store call made by a service
is, in the state in which it is made, whatever other calls have done in the
meantime; it is the guarantee of each service (`CatalogOp.keeps`), and what
the services rely on is that rows stay and keep their facts (`Extends`).
From both follows what holds of every catalog that the services reach
(`Sound`, `CatalogPool.Reachable.sound`).

The first catalog is one that the migrations leave: empty, or the versions
of a database from before there were releases.
-/

namespace Nekiro

open Guard Json
open Strings (UnicodeCase)

namespace Catalog

/-! ## What the services ask of the store -/

section Admits

variable [CardFormats]

/-- A version as `Service.Register` builds it. -/
structure Registration (version : AgentVersion) : Prop where
  card : ∃ data, decodeRegisterAgentRequest data = .ok version.card
  cardJSON : version.card.marshal = some version.cardJSON
  cardDigest : version.cardDigest = sha256 version.cardJSON
  status : version.status = .draft

/-- A release as `ReleaseService.CreateRelease` builds it. -/
structure ReleaseFits (s : Catalog) (value : AgentRelease) : Prop where
  version : ∃ v ∈ s.versions, v.key = value.versionKey ∧ v.cardDigest = value.cardDigest
  binding : ∃ b ∈ s.bindings, b.bindingID = value.endpointBindingID
    ∧ b.providerID = value.providerID ∧ (b.agentID, b.agentCardVersion) = value.versionKey
    ∧ b.origin = value.endpointOrigin ∧ b.path = value.endpointPath
    ∧ b.verificationMethod = value.verificationMethod
    ∧ ((value.state = .verified ∧ b.verificationStatus = .verified ∧ value.evidence = b.evidence
        ∧ value.verifiedAt = b.verifiedAt)
      ∨ (value.state = .pendingVerification ∧ value.evidence = none ∧ value.verifiedAt = none))
  unpublished : value.publishedAt = none ∧ value.suspendedAt = none ∧ value.revokedAt = none
  updatedAt : value.updatedAt = value.createdAt

/-- The call is one that a service makes in this state. -/
def Admits (s : Catalog) : Call → Prop
  | .register version => Registration version
  | .createBinding provider binding =>
      binding.providerID = provider.providerID ∧ provider.verificationStatus = .unverified
        ∧ provider.verifiedAt = none ∧ binding.verificationStatus = .pending
        ∧ binding.verifiedAt = none ∧ binding.revokedAt = none
  | .createRelease value => ReleaseFits s value
  | .transitionRelease _ target evidence _ => target = .verified → evidence ≠ none
  | .setBindingVerification _ status failureCode digest _ =>
      (status = .verified ∧ failureCode = none ∧ digest ≠ none)
        ∨ (status = .failed ∧ failureCode ≠ none ∧ digest = none)
  | _ => True

end Admits

/-! ## What holds of a catalog -/

/-- The stored card is the card of the row. -/
def VersionRow.CardOf (v : VersionRow) (card : AgentCard) : Prop :=
  AgentCard.decodeStored v.card = some card ∧ card.agentID = v.agentID ∧ card.version = v.version

/-- The binding that the release was created with. -/
structure BoundTo (r : AgentRelease) (b : EndpointBinding) : Prop where
  bindingID : b.bindingID = r.endpointBindingID
  providerID : b.providerID = r.providerID
  version : (b.agentID, b.agentCardVersion) = r.versionKey
  origin : b.origin = r.endpointOrigin
  path : b.path = r.endpointPath

structure Sound (s : Catalog) : Prop where
  lifecycle : Lifecycle s
  coupled : Coupled s
  trust : TrustTables s
  identityOf : ∀ v ∈ s.versions, ∃ i ∈ s.identities, i.agentID = v.agentID
  versionOf : ∀ i ∈ s.identities, ∃ v ∈ s.versions, v.agentID = i.agentID
  cards : ∀ v ∈ s.versions, ∃ card, VersionRow.CardOf v card
  named : ∀ v ∈ s.versions, v.version ≠ ""
  digests : ∀ r ∈ s.releases, ∀ v ∈ s.versions, v.key = r.versionKey → v.cardDigest = r.cardDigest
  claimed : ∀ b ∈ s.bindings, ∃ i ∈ s.identities, i.agentID = b.agentID
    ∧ i.providerID = some b.providerID
  bound : ∀ r ∈ s.releases, ∃ b ∈ s.bindings, BoundTo r b

/-- A catalog that the migrations leave. -/
structure Migrated (s : Catalog) : Prop where
  versions : VersionTable s.versions s.lastSequence
  clock : 0 ≤ s.lastSequence
  agentIDs : (s.identities.map AgentIdentity.agentID).Nodup
  publicAgentIDs : (s.identities.map AgentIdentity.publicAgentID).Nodup
  identities : ∀ i ∈ s.identities, i.Checks
  identityOf : ∀ v ∈ s.versions, ∃ i ∈ s.identities, i.agentID = v.agentID
  versionOf : ∀ i ∈ s.identities, ∃ v ∈ s.versions, v.agentID = i.agentID
  cards : ∀ v ∈ s.versions, ∃ card, VersionRow.CardOf v card
  named : ∀ v ∈ s.versions, v.version ≠ ""
  untrusted : s.releases = [] ∧ s.providers = [] ∧ s.bindings = [] ∧ s.challenges = []

theorem Migrated.empty : Migrated Catalog.empty := by
  constructor
  · exact Lifecycle.empty.versions
  · exact le_rfl
  all_goals simp [Catalog.empty]

theorem Migrated.sound {s : Catalog} (h : Migrated s) : Sound s := by
  obtain ⟨hreleases, hproviders, hbindings, hchallenges⟩ := h.untrusted
  have htrust : TrustTables s := by
    refine ⟨h.agentIDs, h.publicAgentIDs, h.identities, ?_, ?_, ?_, ?_, ?_, ?_, ?_, ?_⟩
    all_goals simp [hproviders, hbindings, hchallenges]
  have hlifecycle : Lifecycle s := by
    refine ⟨h.versions, ⟨?_, ?_, ?_⟩, ?_, h.clock⟩
    all_goals simp [hreleases]
  refine ⟨hlifecycle, ?_, htrust, h.identityOf, h.versionOf, h.cards,
    h.named, ?_, ?_, ?_⟩
  all_goals simp [Coupled, hreleases, hbindings]

/-! ## A step -/

theorem VersionMoves.kept {v v' : VersionRow} (h : VersionMoves v v') : VersionKept v v' := by
  cases h <;> exact ⟨rfl, rfl, rfl⟩

theorem VersionKept.cardOf {v v' : VersionRow} {card : AgentCard} (h : VersionKept v v')
    (hcard : VersionRow.CardOf v card) : VersionRow.CardOf v' card := by
  obtain ⟨hagent, hversion⟩ := Prod.mk.injEq .. |>.mp h.key
  exact ⟨h.card ▸ hcard.1, hcard.2.1.trans hagent.symm, hcard.2.2.trans hversion.symm⟩

/-- Rows stay and keep their facts. -/
structure Kept (s s' : Catalog) : Prop where
  versions : Table.Kept VersionKept s.versions s'.versions
  releases : Table.Kept (fun r r' => r'.toReleaseFacts = r.toReleaseFacts) s.releases s'.releases
  trust : TrustKept s s'

theorem Kept.refl (s : Catalog) : Kept s s :=
  ⟨.refl VersionKept.refl _, fun r hr => ⟨r, hr, rfl⟩, .refl s⟩

theorem Kept.trans {s₁ s₂ s₃ : Catalog} (h : Kept s₁ s₂) (h' : Kept s₂ s₃) : Kept s₁ s₃ :=
  ⟨h.versions.trans VersionKept.trans h'.versions,
    h.releases.trans (fun _ _ _ h₁ h₂ => h₂.trans h₁) h'.releases, h.trust.trans h'.trust⟩

theorem Sound.step_kept {s s' : Catalog} (hs : Sound s) {call : Call}
    (h : s.step call = .ok s') : Kept s s' := by
  have hchanged := hs.lifecycle.changed h
  refine ⟨fun v hv => ?_, fun r hr => ?_, (step_trustChanged h).kept hs.trust⟩
  · obtain ⟨v', hv', hmoves⟩ := hchanged.version_moves hv
    exact ⟨v', hv', hmoves.kept⟩
  · obtain ⟨r', hr', hevolves⟩ := hchanged.release_evolves hs.lifecycle.releases hr
    exact ⟨r', hr', hevolves.facts⟩

section Step

variable [CardFormats] {s s' : Catalog} {call : Call}

theorem Registration.cardOf {version : AgentVersion} (h : Registration version) :
    VersionRow.CardOf (registeredRow version) version.card := by
  obtain ⟨data, hdata⟩ := h.card
  obtain ⟨json, hjson, hread⟩ :=
    AgentCard.decodeStored_marshal (decodeRegisterAgentRequest_ok hdata).2 (by decide)
  rw [h.cardJSON] at hjson
  cases hjson
  exact ⟨hread, rfl, rfl⟩

theorem Registration.named {version : AgentVersion} (h : Registration version) :
    version.card.version ≠ "" := by
  obtain ⟨data, hdata⟩ := h.card
  intro hempty
  obtain ⟨-, -, hschema, -⟩ := validateAgentCard_ok (decodeRegisterAgentRequest_ok hdata).1
  have hpattern := hschema.version.2
  rw [hempty] at hpattern
  revert hpattern
  decide

theorem Admits.startsUnpublished (h : Admits s call) : call.startsUnpublished := by
  cases call with
  | createRelease value =>
      obtain ⟨b, -, -, -, -, -, -, -, hstate⟩ := h.binding
      rcases hstate with ⟨hstate, -⟩ | ⟨hstate, -⟩ <;> simp [Call.startsUnpublished, hstate]
  | _ => trivial

/-- Each release of the new state has the version it was created for, with
that digest, in the old one. -/
theorem Sound.release_version (hs : Sound s) (hadmits : Admits s call)
    (h : s.step call = .ok s') {r' : AgentRelease} (hr' : r' ∈ s'.releases) :
    ∃ v ∈ s.versions, v.key = r'.versionKey ∧ v.cardDigest = r'.cardDigest := by
  rcases (hs.lifecycle.changed h).release_origin hr' with ⟨r, hr, hevolves⟩ | ⟨value, rfl, rfl, -⟩
  · obtain ⟨v, hv, hkey⟩ := hs.lifecycle.versionOf r hr
    rw [hevolves.facts]
    exact ⟨v, hv, hkey, hs.digests r hr v hv hkey⟩
  · exact hadmits.version

omit [CardFormats] in
theorem BoundTo.kept {r r' : AgentRelease} {b b' : EndpointBinding} (h : BoundTo r b)
    (hr : r'.toReleaseFacts = r.toReleaseFacts) (hb : b'.toBindingFacts = b.toBindingFacts) :
    BoundTo r' b' := by
  obtain ⟨hid, hprovider, hversion, horigin, hpath⟩ := h
  constructor <;> rw [hr, hb] <;> assumption

theorem Sound.release_binding (hs : Sound s) (hadmits : Admits s call)
    (h : s.step call = .ok s') {r' : AgentRelease} (hr' : r' ∈ s'.releases) :
    ∃ b ∈ s.bindings, BoundTo r' b := by
  rcases (hs.lifecycle.changed h).release_origin hr' with ⟨r, hr, hevolves⟩ | ⟨value, rfl, rfl, -⟩
  · obtain ⟨b, hb, hbound⟩ := hs.bound r hr
    exact ⟨b, hb, hbound.kept hevolves.facts rfl⟩
  · obtain ⟨b, hb, hid, hprovider, hversion, horigin, hpath, -⟩ := hadmits.binding
    exact ⟨b, hb, hid, hprovider, hversion, horigin, hpath⟩

theorem Sound.binding_claimed (hs : Sound s) (hadmits : Admits s call)
    (h : s.step call = .ok s') {b' : EndpointBinding} (hb' : b' ∈ s'.bindings) :
    ∃ i ∈ s'.identities, i.agentID = b'.agentID ∧ i.providerID = some b'.providerID := by
  have hchanged := step_trustChanged h
  have hstays : ∀ b ∈ s.bindings, ∃ i ∈ s'.identities, i.agentID = b.agentID
      ∧ i.providerID = some b.providerID := by
    intro b hb
    obtain ⟨i, hi, hagent, hprovider⟩ := hs.claimed b hb
    obtain ⟨i', hi', hkept⟩ := (hchanged.kept hs.trust).identities i hi
    exact ⟨i', hi', hkept.agentID.trans hagent,
      (hkept.providerID (by simp [hprovider])).trans hprovider⟩
  rcases hchanged.binding_origin hb' with ⟨b, hb, hfacts⟩ | ⟨provider, binding, rfl, rfl⟩
  · rw [hfacts]
    exact hstays b hb
  · cases hchanged with
    | frame h => exact hstays _ (h.bindings ▸ hb')
    | bound _ _ _ _ hclaimed =>
        obtain ⟨i, hi, hagent, hprovider⟩ := hclaimed.claimed
        exact ⟨i, hi, hagent, hprovider.trans (congrArg some hadmits.1.symm)⟩

/-- A call that the state admits leaves it sound. -/
theorem Sound.step (hs : Sound s) (hadmits : Admits s call) (h : s.step call = .ok s') :
    Sound s' := by
  have hchanged := hs.lifecycle.changed h
  have htrust := step_trustChanged h
  have hkept := hs.step_kept h
  have hlifecycle := hchanged.lifecycle hs.lifecycle
  have htables : TrustTables s' := htrust.tables hs.trust fun v hv => by
    obtain ⟨v', hv', hv⟩ := hkept.versions v hv
    exact ⟨v', hv', hv.key⟩
  refine ⟨hlifecycle, hchanged.coupled hs.lifecycle hs.coupled hadmits.startsUnpublished, htables,
    ?_, ?_, ?_, ?_, ?_, fun b hb => hs.binding_claimed hadmits h hb, ?_⟩
  · intro v' hv'
    rcases version_origin h hv' with ⟨v, hv, hv'⟩ | ⟨version, rfl, rfl⟩
    · obtain ⟨i, hi, hagent⟩ := hs.identityOf v hv
      obtain ⟨i', hi', hi⟩ := hkept.trust.identities i hi
      exact ⟨i', hi', (hi.agentID.trans hagent).trans (congrArg Prod.fst hv'.key).symm⟩
    · obtain ⟨i, hi, hagent, -⟩ := (register_ok h).2.1
      exact ⟨i, hi, hagent⟩
  · intro i' hi'
    rcases htrust.identity_origin hi' with ⟨i, hi, hagent⟩ | ⟨version, rfl, rfl⟩
    · obtain ⟨v, hv, hv_agent⟩ := hs.versionOf i hi
      obtain ⟨v', hv', hv⟩ := hkept.versions v hv
      exact ⟨v', hv', ((congrArg Prod.fst hv.key).trans hv_agent).trans hagent.symm⟩
    · refine ⟨registeredRow version, ?_, rfl⟩
      rw [(register_ok h).1]
      exact List.mem_append_right _ List.mem_cons_self
  · intro v' hv'
    rcases version_origin h hv' with ⟨v, hv, hv'⟩ | ⟨version, rfl, rfl⟩
    · obtain ⟨card, hcard⟩ := hs.cards v hv
      exact ⟨card, hv'.cardOf hcard⟩
    · exact ⟨version.card, hadmits.cardOf⟩
  · intro v' hv'
    rcases version_origin h hv' with ⟨v, hv, hv'⟩ | ⟨version, rfl, rfl⟩
    · have hversion : v'.version = v.version := congrArg Prod.snd hv'.key
      exact hversion ▸ hs.named v hv
    · exact hadmits.named
  · intro r' hr' v' hv' hkey
    obtain ⟨v, hv, hv_key, hdigest⟩ := hs.release_version hadmits h hr'
    obtain ⟨w, hw, hw_kept⟩ := hkept.versions v hv
    obtain rfl := Table.eq_of_key hlifecycle.versions.keys hv' hw
      (hkey.trans (hw_kept.key.trans hv_key).symm)
    exact hw_kept.cardDigest.trans hdigest
  · intro r' hr'
    obtain ⟨b, hb, hbound⟩ := hs.release_binding hadmits h hr'
    obtain ⟨b', hb', hb_kept⟩ := hkept.trust.bindings b hb
    exact ⟨b', hb', hbound.kept rfl hb_kept.facts⟩

end Step

end Catalog

/-! ## Calls side by side -/

open Catalog

section World

variable (tick : Time → Time → Bool)

/-- The clock does not go back. -/
def Forward : Prop := ∀ t u, tick t u = true → t ≤ u

namespace CatalogWorld

structure Inv (w : CatalogWorld) : Prop where
  sound : Sound w.catalog
  stamped : Forward tick → ∀ r ∈ w.catalog.releases, r.createdAt ≤ w.now

structure Extends (w w' : CatalogWorld) : Prop where
  catalog : Kept w.catalog w'.catalog
  now : Forward tick → w.now ≤ w'.now

/-- The times that a service gives to the store are no earlier than those
of the rows it has read. -/
def Stamped (w : CatalogWorld) : Call → Prop
  | .createRelease value => value.createdAt ≤ w.now
  | .transitionRelease releaseID _ _ clock =>
      ∀ r ∈ w.catalog.releases, r.releaseID = releaseID → r.createdAt ≤ clock
  | _ => True

variable {tick}

theorem Extends.refl (w : CatalogWorld) : Extends tick w w := ⟨.refl _, fun _ => le_rfl⟩

theorem Extends.trans (w₁ w₂ w₃ : CatalogWorld) (h : Extends tick w₁ w₂)
    (h' : Extends tick w₂ w₃) : Extends tick w₁ w₃ :=
  ⟨h.catalog.trans h'.catalog, fun hf => (h.now hf).trans (h'.now hf)⟩

variable {q : CatalogQuery} {e : Surroundings} {w w' : CatalogWorld}

/-- A query leaves the catalog, or is a write that is committed. -/
theorem respond_cases {a : q.Answer} (h : q.respond tick e w = some (a, w')) :
    (w'.catalog = w.catalog ∧ (Forward tick → w.now ≤ w'.now))
      ∨ ∃ call, q = .write call ∧ w.catalog.step call = .ok w'.catalog ∧ w'.now = w.now := by
  cases q with
  | clock =>
      simp only [CatalogQuery.respond] at h
      split_ifs at h with htick
      cases h
      exact .inl ⟨rfl, fun hf => hf _ _ htick⟩
  | write call =>
      simp only [CatalogQuery.respond] at h
      split at h
      · rename_i reply s hperform
        cases h
        refine .inr ⟨call, rfl, ?_, rfl⟩
        rw [← perform_step, hperform]
        rfl
      · cases h
        exact .inl ⟨rfl, fun _ => le_rfl⟩
  | _ =>
      cases h
      exact .inl ⟨rfl, fun _ => le_rfl⟩

theorem respond_of_reads (hq : q.reads = true) {a : q.Answer}
    (h : q.respond tick e w = some (a, w')) : w' = w := by
  cases q with
  | clock => cases hq
  | write call => cases hq
  | _ =>
      cases h
      rfl

/-- A new release is stamped with the clock, the others keep their time. -/
theorem stamped_step (h : Inv tick w) {call : Call} {s' : Catalog}
    (hstep : w.catalog.step call = .ok s') (hf : Forward tick) (hcall : Stamped w call)
    {r' : AgentRelease} (hr' : r' ∈ s'.releases) : r'.createdAt ≤ w.now := by
  rcases (h.sound.lifecycle.changed hstep).release_origin hr' with
    ⟨r, hr, hevolves⟩ | ⟨value, rfl, rfl, -⟩
  · rw [hevolves.facts]
    exact h.stamped hf r hr
  · exact (Time.truncateMicro_le _).trans hcall

variable (tick) [CardFormats]

/-- What each query of a service does. -/
structure Guarantee (q : CatalogQuery) (w : CatalogWorld) (a : q.Answer) (w' : CatalogWorld) :
    Prop where
  responds : ∃ e, q.respond tick e w = some (a, w')
  admits : ∀ call, q = .write call → Admits w.catalog call ∧ (Forward tick → Stamped w call)

variable {tick}

theorem Guarantee.keeps {a : q.Answer} (h : Inv tick w) (hg : Guarantee tick q w a w') :
    Extends tick w w' ∧ Inv tick w' := by
  obtain ⟨e, hrespond⟩ := hg.responds
  rcases respond_cases hrespond with ⟨hcatalog, hnow⟩ | ⟨call, hq, hstep, hnow⟩
  · refine ⟨⟨by rw [hcatalog]; exact .refl _, hnow⟩, by rw [hcatalog]; exact h.sound, ?_⟩
    intro hf r hr
    rw [hcatalog] at hr
    exact (h.stamped hf r hr).trans (hnow hf)
  · obtain ⟨hadmits, hstamped⟩ := hg.admits call hq
    refine ⟨⟨h.sound.step_kept hstep, fun _ => hnow.ge⟩, h.sound.step hadmits hstep, ?_⟩
    intro hf r hr
    rw [hnow]
    exact stamped_step h hstep hf (hstamped hf) hr

theorem guarantee_of_reads (hq : q.reads = true) {a : q.Answer}
    (h : q.respond tick e w = some (a, w')) : Guarantee tick q w a w' := by
  refine ⟨⟨e, h⟩, fun call heq => ?_⟩
  rw [heq] at hq
  cases hq

end CatalogWorld

end World

end Nekiro
