import Nekiro.CatalogLifecycle

/-!
# What a catalog call changes in the trust tables

The counterpart of `CatalogChanges` for identities, providers, bindings and
challenges: `TrustChanged` says once what a committed call can have done to
the four of them, and the invariants of the tables (`TrustTables`) and what
never changes of a row (`TrustKept`) are derived from it.
-/

namespace Nekiro

open Guard

namespace Catalog

/-- The call left the four tables as they were. -/
structure TrustFrame (s s' : Catalog) : Prop where
  identities : s'.identities = s.identities
  providers : s'.providers = s.providers
  bindings : s'.bindings = s.bindings
  challenges : s'.challenges = s.challenges

theorem TrustFrame.refl (s : Catalog) : TrustFrame s s := ⟨rfl, rfl, rfl, rfl⟩

variable {s₁ s₂ s₃ s s' : Catalog} {agentID version providerID : String} {clock : Time}
  {binding row : EndpointBinding} {challenge : VerificationChallenge} {call : Call}
  {identity : AgentIdentity}

theorem TrustFrame.trans (h : TrustFrame s₁ s₂) (h' : TrustFrame s₂ s₃) : TrustFrame s₁ s₃ :=
  ⟨h'.identities.trans h.identities, h'.providers.trans h.providers,
    h'.bindings.trans h.bindings, h'.challenges.trans h.challenges⟩

/-- The row that `Register` claims an agent with. -/
def registeredIdentity (version : AgentVersion) : AgentIdentity :=
  ⟨version.card.agentID, version.card.owner.id, version.registeredAt.truncateMicro,
    version.publicAgentID, none⟩

def setProvider (providerID : String) (i : AgentIdentity) : AgentIdentity :=
  { i with providerID := some providerID }

def setUsed (now : Time) (c : VerificationChallenge) : VerificationChallenge :=
  { c with usedAt := some now.truncateMicro }

def setVerification (status : VerificationStatus) (failureCode : Option String)
    (digest : Option Digest) (clock : Time) (b : EndpointBinding) : EndpointBinding :=
  { b with
    verificationStatus := status
    evidence := digest
    failureCode := failureCode
    verifiedAt := if status = .verified then some clock.truncateMicro else none
    updatedAt := clock.truncateMicro }

def setProviderVerified (clock : Time) (p : Provider) : Provider :=
  { p with
    verificationStatus := .verified
    verifiedAt := some clock.truncateMicro
    updatedAt := clock.truncateMicro }

/-- Identities after an agent was claimed by a provider, unless it was
before. -/
structure Claimed (s s' : Catalog) (agentID providerID : String) (identity : AgentIdentity) :
    Prop where
  mem : identity ∈ s.identities
  agent : identity.agentID = agentID
  provider : identity.providerID = none ∨ identity.providerID = some providerID
  identities : s'.identities = if identity.providerID = none
    then Table.update AgentIdentity.agentID agentID (setProvider providerID) s.identities
    else s.identities

inductive TrustChanged (s : Catalog) : Call → Catalog → Prop
  | frame {call : Call} {s' : Catalog} (h : TrustFrame s s') : TrustChanged s call s'
  | registered {version : AgentVersion} {s' : Catalog}
      (hchecks : (registeredIdentity version).Checks)
      (hfresh : ∀ i ∈ s.identities, i.agentID ≠ version.card.agentID
        ∧ i.publicAgentID ≠ version.publicAgentID)
      (hidentities : s'.identities = s.identities ++ [registeredIdentity version])
      (hproviders : s'.providers = s.providers) (hbindings : s'.bindings = s.bindings)
      (hchallenges : s'.challenges = s.challenges) : TrustChanged s (.register version) s'
  | bound {provider : Provider} {binding : EndpointBinding} {s' : Catalog}
      {identity : AgentIdentity} {current : Provider}
      (hproviders : s'.providers = s.providers
        ∨ (storedProvider provider).Checks ∧ (∀ p ∈ s.providers, p.providerID ≠ provider.providerID)
          ∧ s'.providers = s.providers ++ [storedProvider provider])
      (hcurrent : current ∈ s'.providers) (hid : current.providerID = provider.providerID)
      (howner : current.ownerIdentity = provider.ownerIdentity)
      (hclaimed : Claimed s s' binding.agentID provider.providerID identity)
      (hchecks : (storedBinding binding).Checks)
      (hfresh : ∀ b ∈ s.bindings, b.bindingID ≠ binding.bindingID)
      (hprovider : ∃ p ∈ s'.providers, p.providerID = binding.providerID)
      (hversion : ∃ v ∈ s.versions, v.key = (binding.agentID, binding.agentCardVersion))
      (hbindings : s'.bindings = s.bindings ++ [storedBinding binding])
      (hchallenges : s'.challenges = s.challenges) :
      TrustChanged s (.createBinding provider binding) s'
  | challenged {challenge : VerificationChallenge} {s' : Catalog}
      (hchecks : (storedChallenge challenge).Checks)
      (hfresh : ∀ c ∈ s.challenges, c.challengeID ≠ challenge.challengeID)
      (hbinding : ∃ b ∈ s.bindings, b.bindingID = challenge.bindingID)
      (hchallenges : s'.challenges = s.challenges ++ [storedChallenge challenge])
      (hidentities : s'.identities = s.identities) (hproviders : s'.providers = s.providers)
      (hbindings : s'.bindings = s.bindings) : TrustChanged s (.createChallenge challenge) s'
  | reserved {bindingID challengeID : String} {now : Time} {s' : Catalog}
      {c : VerificationChallenge} (hc : c ∈ s.challenges) (hid : c.challengeID = challengeID)
      (hbinding : c.bindingID = bindingID) (hunused : c.usedAt = none) (hnow : now < c.expiresAt)
      (hchallenges : s'.challenges =
        Table.update VerificationChallenge.challengeID challengeID (setUsed now) s.challenges)
      (hidentities : s'.identities = s.identities) (hproviders : s'.providers = s.providers)
      (hbindings : s'.bindings = s.bindings) :
      TrustChanged s (.reserveChallenge bindingID challengeID now) s'
  | settled {bindingID : String} {status : VerificationStatus} {failureCode : Option String}
      {digest : Option Digest} {clock : Time} {s' : Catalog} {b : EndpointBinding}
      (hb : b ∈ s.bindings) (hid : b.bindingID = bindingID)
      (hstatus : b.verificationStatus = .pending ∨ b.verificationStatus = .failed)
      (hchecks : ∀ b ∈ s.bindings, b.bindingID = bindingID →
        (setVerification status failureCode digest clock b).Checks)
      (hbindings : s'.bindings = Table.update (fun b => b.bindingID) bindingID
        (setVerification status failureCode digest clock) s.bindings)
      (hproviders : if status = .verified then
          (∀ p ∈ s.providers, p.providerID = b.providerID → p.verificationStatus ≠ .suspended →
            (setProviderVerified clock p).Checks)
          ∧ (∃ p ∈ s.providers, p.providerID = b.providerID ∧ p.verificationStatus ≠ .suspended)
          ∧ s'.providers = s.providers.map fun p =>
            if p.providerID = b.providerID ∧ p.verificationStatus ≠ .suspended
            then setProviderVerified clock p else p
        else s'.providers = s.providers)
      (hidentities : s'.identities = s.identities) (hchallenges : s'.challenges = s.challenges) :
      TrustChanged s (.setBindingVerification bindingID status failureCode digest clock) s'

/-! ## Registration -/

theorem insertCapability_trustFrame {row : CapabilityRow} (h : s.insertCapability row = .ok s') :
    TrustFrame s s' := by
  simp only [insertCapability, check_bind_ok_iff] at h
  obtain ⟨-, -, h⟩ := h
  cases h
  exact ⟨rfl, rfl, rfl, rfl⟩

theorem insertCapabilities_trustFrame :
    ∀ (skills : List AgentSkill) {s s' : Catalog},
      skills.foldlM (fun s skill => s.insertCapability ⟨agentID, version, skill.id⟩) s = .ok s' →
        TrustFrame s s'
  | [], s, s', h => by
      cases h
      exact .refl s
  | skill :: skills, s, s', h => by
      rw [List.foldlM_cons] at h
      obtain ⟨s₁, hskill, h⟩ := bind_ok_iff.mp h
      exact (insertCapability_trustFrame hskill).trans (insertCapabilities_trustFrame skills h)

/-- A claim adds the row, unless the agent has one. -/
theorem claimIdentity_ok {row : AgentIdentity} (h : s.claimIdentity row = .ok s') :
    row.Checks ∧ (s' = s ∨ (∀ i ∈ s.identities, i.agentID ≠ row.agentID
      ∧ i.publicAgentID ≠ row.publicAgentID)
        ∧ s' = { s with identities := s.identities ++ [row] }) := by
  simp only [claimIdentity, check_bind_ok_iff, writeRow_ok_iff] at h
  obtain ⟨⟨-, hchecks⟩, h⟩ := h
  refine ⟨hchecks, ?_⟩
  split_ifs at h with hany
  · cases h
    exact .inl rfl
  · obtain ⟨hfresh, heq⟩ := check_bind_ok_iff.mp h
    rw [require_ok_iff] at hfresh
    cases heq
    simp only [List.any_eq_true, decide_eq_true_eq, not_exists, not_and] at hany
    exact .inr ⟨fun i hi => ⟨hany i hi, hfresh i hi⟩, rfl⟩

/-- What a registration leaves: the version it was asked for, and the
identity of its agent, which is the caller's. -/
theorem register_ok {version : AgentVersion} (h : s.register version = .ok s') :
    s'.versions = s.versions ++ [registeredRow version]
      ∧ (∃ i ∈ s'.identities, i.agentID = version.card.agentID
        ∧ i.ownerID = version.card.owner.id)
      ∧ TrustChanged s (.register version) s' := by
  simp only [register] at h
  obtain ⟨s₁, hclaim, h⟩ := bind_ok_iff.mp h
  have hversions := (claimIdentity_frame hclaim).versions
  obtain ⟨hchecks, hclaimed⟩ := claimIdentity_ok hclaim
  split at h
  · cases h
  · rename_i identity hfound
    simp only [check_bind_ok_iff, require_ok_iff] at h
    obtain ⟨-, howner, h⟩ := h
    obtain ⟨s₂, hinsert, h⟩ := bind_ok_iff.mp h
    simp only [insertVersion, check_bind_ok_iff] at hinsert
    obtain ⟨-, -, heq⟩ := hinsert
    cases heq
    have hskills := insertCapabilities_frame _ h
    have htrust := insertCapabilities_trustFrame _ h
    refine ⟨by rw [hskills.versions, hversions], ⟨identity, ?_, ?_, howner⟩, ?_⟩
    · rw [htrust.identities]
      exact List.mem_of_find?_eq_some hfound
    · simpa using List.find?_some hfound
    · rcases hclaimed with rfl | ⟨hfresh, rfl⟩
      · exact .frame ⟨htrust.identities, htrust.providers, htrust.bindings, htrust.challenges⟩
      · exact .registered hchecks hfresh htrust.identities htrust.providers htrust.bindings
          htrust.challenges

/-! ## The two lifecycles -/

/-- A version keeps its card; a publication or a transition changes the
rest. -/
structure VersionKept (v v' : VersionRow) : Prop where
  key : v'.key = v.key
  card : v'.card = v.card
  cardDigest : v'.cardDigest = v.cardDigest

theorem VersionKept.refl (v : VersionRow) : VersionKept v v := ⟨rfl, rfl, rfl⟩

theorem VersionKept.trans (v₁ v₂ v₃ : VersionRow) (h : VersionKept v₁ v₂)
    (h' : VersionKept v₂ v₃) : VersionKept v₁ v₃ :=
  ⟨h'.key.trans h.key, h'.card.trans h.card, h'.cardDigest.trans h.cardDigest⟩

/-- No trust table is touched, and no version is new. -/
structure CardFrame (s s' : Catalog) : Prop where
  trust : TrustFrame s s'
  versions : ∀ v' ∈ s'.versions, ∃ v ∈ s.versions, VersionKept v v'

theorem CardFrame.refl (s : Catalog) : CardFrame s s := ⟨.refl s, fun v hv => ⟨v, hv, .refl v⟩⟩

theorem CardFrame.trans (h : CardFrame s₁ s₂) (h' : CardFrame s₂ s₃) : CardFrame s₁ s₃ := by
  refine ⟨h.trust.trans h'.trust, fun v₃ hv₃ => ?_⟩
  obtain ⟨v₂, hv₂, h₂⟩ := h'.versions v₃ hv₃
  obtain ⟨v₁, hv₁, h₁⟩ := h.versions v₂ hv₂
  exact ⟨v₁, hv₁, h₁.trans _ _ _ h₂⟩

theorem updateVersion_cardFrame {key : String × String} {operation : String}
    {set : VersionRow → VersionRow} (hset : ∀ v, VersionKept v (set v))
    (h : s.updateVersion key operation set = .ok s') : CardFrame s s' := by
  simp only [updateVersion, check_bind_ok_iff] at h
  obtain ⟨-, -, h⟩ := h
  cases h
  refine ⟨⟨rfl, rfl, rfl, rfl⟩, fun v' hv' => ?_⟩
  rcases Table.mem_update hv' with hv' | ⟨v, hv, -, rfl⟩
  · exact ⟨v', hv', .refl v'⟩
  · exact ⟨v, hv, hset v⟩

theorem setPublished_kept (clock : Time) (sequence : Int) (v : VersionRow) :
    VersionKept v (setPublished clock sequence v) := ⟨rfl, rfl, rfl⟩

theorem setDisabled_kept (clock : Time) (v : VersionRow) : VersionKept v (setDisabled clock v) :=
  ⟨rfl, rfl, rfl⟩

theorem advanceClock_cardFrame {operation : String} {sequence : Int}
    (h : s.advanceClock operation = .ok (sequence, s')) : CardFrame s s' := by
  obtain ⟨-, rfl⟩ := advanceClock_ok h
  exact ⟨⟨rfl, rfl, rfl, rfl⟩, fun v hv => ⟨v, hv, .refl v⟩⟩

theorem publish_cardFrame {callerID : String}
    (h : s.publish agentID version callerID clock = .ok s') : CardFrame s s' := by
  simp only [publish] at h
  obtain ⟨entry, -, h⟩ := bind_ok_iff.mp h
  obtain ⟨-, h⟩ := check_bind_ok_iff.mp h
  obtain ⟨⟨sequence, s₁⟩, hclock, h⟩ := bind_ok_iff.mp h
  exact (advanceClock_cardFrame hclock).trans (updateVersion_cardFrame (setPublished_kept _ _) h)

theorem disable_cardFrame {callerID : String}
    (h : s.disable agentID version callerID clock = .ok s') : CardFrame s s' := by
  simp only [disable] at h
  obtain ⟨entry, -, h⟩ := bind_ok_iff.mp h
  split_ifs at h
  · cases h
    exact .refl s
  · exact updateVersion_cardFrame (setDisabled_kept _) h

theorem updateRelease_cardFrame {releaseID : String} {set : AgentRelease → AgentRelease}
    (h : s.updateRelease releaseID set = .ok s') : CardFrame s s' := by
  simp only [updateRelease, check_bind_ok_iff] at h
  obtain ⟨-, -, -, h⟩ := h
  cases h
  exact ⟨⟨rfl, rfl, rfl, rfl⟩, fun v hv => ⟨v, hv, .refl v⟩⟩

theorem createRelease_cardFrame {value row : AgentRelease}
    (h : s.createRelease value = .ok (row, s')) : CardFrame s s' := by
  simp only [createRelease, check_bind_ok_iff] at h
  obtain ⟨-, -, -, -, heq⟩ := h
  cases heq
  exact ⟨⟨rfl, rfl, rfl, rfl⟩, fun v hv => ⟨v, hv, .refl v⟩⟩

theorem transitionRelease_cardFrame {releaseID : String} {target : ReleaseState}
    {evidence : Option Digest} {r : AgentRelease}
    (h : s.transitionRelease releaseID target evidence clock = .ok (r, s')) : CardFrame s s' := by
  rw [transitionRelease, bind_ok_iff] at h
  obtain ⟨current, -, h⟩ := h
  -- every branch ends with the update of the release; all but the first
  -- update the version before it
  split at h
  · split at h
    · cases h
    · obtain ⟨s₁, hupdate, heq⟩ := bind_ok_iff.mp h
      cases heq
      exact updateRelease_cardFrame hupdate
  · obtain ⟨⟨sequence, s₁⟩, hadvance, h⟩ := bind_ok_iff.mp h
    obtain ⟨s₂, hversion, h⟩ := bind_ok_iff.mp h
    obtain ⟨s₃, hupdate, heq⟩ := bind_ok_iff.mp h
    cases heq
    exact ((advanceClock_cardFrame hadvance).trans
      (updateVersion_cardFrame (setPublished_kept _ _) hversion)).trans
      (updateRelease_cardFrame hupdate)
  all_goals
    first
    | cases h
    | (obtain ⟨s₁, hversion, h⟩ := bind_ok_iff.mp h
       obtain ⟨s₂, hupdate, heq⟩ := bind_ok_iff.mp h
       cases heq
       exact (updateVersion_cardFrame (setDisabled_kept _) hversion).trans
         (updateRelease_cardFrame hupdate))

/-! ## Bindings and challenges -/

theorem claimProvider_ok {row : Provider} (h : s.claimProvider row = .ok s') :
    s' = s ∨ row.Checks ∧ (∀ p ∈ s.providers, p.providerID ≠ row.providerID)
      ∧ s' = { s with providers := s.providers ++ [row] } := by
  simp only [claimProvider, check_bind_ok_iff, writeRow_ok_iff] at h
  obtain ⟨⟨-, hchecks⟩, h⟩ := h
  split_ifs at h with hany
  · cases h
    exact .inl rfl
  · cases h
    simp only [List.any_eq_true, decide_eq_true_eq, not_exists, not_and] at hany
    exact .inr ⟨hchecks, hany, rfl⟩

theorem createBinding_changed {provider : Provider}
    (h : s.createBinding provider binding = .ok (row, s')) :
    TrustChanged s (.createBinding provider binding) s' := by
  rw [createBinding, bind_ok_iff] at h
  obtain ⟨s₁, hclaim, h⟩ := h
  have hproviders := claimProvider_ok hclaim
  have hidentities : s₁.identities = s.identities ∧ s₁.bindings = s.bindings
      ∧ s₁.challenges = s.challenges ∧ s₁.versions = s.versions := by
    rcases hproviders with rfl | ⟨-, -, rfl⟩
    · exact ⟨rfl, rfl, rfl, rfl⟩
    · exact ⟨rfl, rfl, rfl, rfl⟩
  obtain ⟨hidentities, hbindings, hchallenges, hversions⟩ := hidentities
  split at h
  · cases h
  · rename_i current hcurrent
    simp only [check_bind_ok_iff, require_ok_iff] at h
    obtain ⟨howner, -, h⟩ := h
    split at h
    · cases h
    · rename_i identity hidentity
      obtain ⟨hclaimed, h⟩ := check_bind_ok_iff.mp h
      rw [require_ok_iff] at hclaimed
      obtain ⟨s₃, hinsert, heq⟩ := bind_ok_iff.mp h
      cases heq
      simp only [insertBinding, check_bind_ok_iff, writeRow_ok_iff, require_ok_iff] at hinsert
      obtain ⟨⟨-, hchecks⟩, hfresh, ⟨hprovider, hversion⟩, heq⟩ := hinsert
      cases heq
      have hmem : identity ∈ s.identities := hidentities ▸ List.mem_of_find?_eq_some hidentity
      have hagent : identity.agentID = binding.agentID := by simpa using List.find?_some hidentity
      have hnone : identity.providerID = none ∨ identity.providerID = some provider.providerID := by
        cases hp : identity.providerID with
        | none => exact .inl rfl
        | some claimed => exact .inr (congrArg some (hclaimed claimed hp))
      -- the two cases differ in the identities only
      have hsame : ∀ s₂ : Catalog, s₂ = (if identity.providerID = none
            then s₁.claimAgent binding.agentID provider.providerID else s₁) →
          s₂.providers = s₁.providers ∧ s₂.bindings = s₁.bindings
            ∧ s₂.challenges = s₁.challenges ∧ s₂.versions = s₁.versions
            ∧ s₂.identities = if identity.providerID = none
              then Table.update AgentIdentity.agentID binding.agentID
                (setProvider provider.providerID) s.identities
              else s.identities := by
        rintro s₂ rfl
        split_ifs
        · exact ⟨rfl, rfl, rfl, rfl, by rw [← hidentities]; rfl⟩
        · exact ⟨rfl, rfl, rfl, rfl, hidentities⟩
      obtain ⟨hp, hb, hc, hv, hi⟩ := hsame _ rfl
      have hid : current.providerID = provider.providerID := by
        simpa using List.find?_some hcurrent
      refine .bound ?_ ?_ hid howner ⟨hmem, hagent, hnone, hi⟩ hchecks ?_ hprovider ?_ ?_ ?_
      · rcases hproviders with heq | ⟨hrow, hnew, heq⟩
        · exact .inl (by rw [hp, heq])
        · exact .inr ⟨hrow, hnew, by rw [hp, heq]⟩
      · rw [hp]
        exact List.mem_of_find?_eq_some hcurrent
      · rw [← hbindings, ← hb]
        exact hfresh
      · rw [← hversions, ← hv]
        exact hversion
      · rw [hb, hbindings]
      · rw [hc, hchallenges]

theorem createChallenge_changed (h : s.createChallenge challenge = .ok s') :
    TrustChanged s (.createChallenge challenge) s' := by
  simp only [createChallenge, check_bind_ok_iff, writeRow_ok_iff, require_ok_iff] at h
  obtain ⟨⟨-, hchecks⟩, hfresh, hbinding, h⟩ := h
  cases h
  exact .challenged hchecks hfresh hbinding rfl rfl rfl rfl

theorem reserveChallenge_changed {bindingID challengeID : String} {now : Time}
    (h : s.reserveChallenge bindingID challengeID now = .ok (challenge, binding, s')) :
    TrustChanged s (.reserveChallenge bindingID challengeID now) s' := by
  rw [reserveChallenge] at h
  split at h
  · cases h
  · rename_i c hfound
    simp only [check_bind_ok_iff, require_ok_iff] at h
    obtain ⟨hunused, hnow, h⟩ := h
    split at h
    · cases h
    · simp only [check_bind_ok_iff] at h
      obtain ⟨-, -, h⟩ := h
      cases h
      have hkey : c.bindingID = bindingID ∧ c.challengeID = challengeID := by
        simpa using List.find?_some hfound
      exact .reserved (List.mem_of_find?_eq_some hfound) hkey.2 hkey.1 hunused hnow rfl rfl rfl rfl

theorem verifyProvider_ok (h : s.verifyProvider providerID clock = .ok s') :
    (∀ p ∈ s.providers, p.providerID = providerID → p.verificationStatus ≠ .suspended →
        (setProviderVerified clock p).Checks)
      ∧ (∃ p ∈ s.providers, p.providerID = providerID ∧ p.verificationStatus ≠ .suspended)
      ∧ s' = { s with providers := s.providers.map fun p =>
          if p.providerID = providerID ∧ p.verificationStatus ≠ .suspended
          then setProviderVerified clock p else p } := by
  simp only [verifyProvider, check_bind_ok_iff, writeRow_ok_iff, require_ok_iff] at h
  obtain ⟨⟨-, hchecks⟩, hone, heq⟩ := h
  cases heq
  refine ⟨fun p hp hid hstatus => hchecks p hp ⟨hid, hstatus⟩, ?_, rfl⟩
  obtain ⟨p, hp⟩ := List.length_pos_iff_exists_mem.mp (by rw [hone]; exact Nat.one_pos)
  rw [List.mem_filter, decide_eq_true_iff] at hp
  exact ⟨p, hp⟩

theorem setBindingVerification_changed {bindingID : String} {status : VerificationStatus}
    {failureCode : Option String} {digest : Option Digest}
    (h : s.setBindingVerification bindingID status failureCode digest clock = .ok (row, s')) :
    TrustChanged s (.setBindingVerification bindingID status failureCode digest clock) s' := by
  rw [setBindingVerification] at h
  split at h
  · cases h
  · rename_i b hfound
    obtain ⟨hstatus, h⟩ := check_bind_ok_iff.mp h
    rw [require_ok_iff] at hstatus
    obtain ⟨s₁, hupdate, h⟩ := bind_ok_iff.mp h
    simp only [updateBinding, check_bind_ok_iff, writeRow_ok_iff] at hupdate
    obtain ⟨⟨-, hchecks⟩, heq⟩ := hupdate
    cases heq
    have hb := List.mem_of_find?_eq_some hfound
    have hid : b.bindingID = bindingID := by simpa using List.find?_some hfound
    by_cases hverified : status = .verified
    · rw [if_pos hverified] at h
      obtain ⟨s₂, hprovider, heq⟩ := bind_ok_iff.mp h
      cases heq
      obtain ⟨hproviders, hone, rfl⟩ := verifyProvider_ok hprovider
      exact .settled hb hid hstatus hchecks rfl
        (by rw [if_pos hverified]; exact ⟨hproviders, hone, rfl⟩)
        rfl rfl
    · rw [if_neg hverified] at h
      cases h
      exact .settled hb hid hstatus hchecks rfl (by rw [if_neg hverified]) rfl rfl

/-- What a committed call does to the four tables. -/
theorem step_trustChanged (h : s.step call = .ok s') : TrustChanged s call s' := by
  cases call with
  | register version => exact (register_ok h).2.2
  | publish agentID version callerID clock => exact .frame (publish_cardFrame h).trust
  | disable agentID version callerID clock => exact .frame (disable_cardFrame h).trust
  | createRelease value =>
      obtain ⟨⟨row, s₁⟩, hcall, rfl⟩ := map_ok_iff.mp h
      exact .frame (createRelease_cardFrame hcall).trust
  | transitionRelease releaseID target evidence clock =>
      obtain ⟨⟨row, s₁⟩, hcall, rfl⟩ := map_ok_iff.mp h
      exact .frame (transitionRelease_cardFrame hcall).trust
  | createBinding provider binding =>
      obtain ⟨⟨row, s₁⟩, hcall, rfl⟩ := map_ok_iff.mp h
      exact createBinding_changed hcall
  | createChallenge challenge => exact createChallenge_changed h
  | reserveChallenge bindingID challengeID now =>
      obtain ⟨⟨challenge, binding, s₁⟩, hcall, rfl⟩ := map_ok_iff.mp h
      exact reserveChallenge_changed hcall
  | setBindingVerification bindingID status failureCode digest clock =>
      obtain ⟨⟨row, s₁⟩, hcall, rfl⟩ := map_ok_iff.mp h
      exact setBindingVerification_changed hcall

/-- A version of the new state was there before, or the call registered
it. -/
theorem version_origin (h : s.step call = .ok s') {v' : VersionRow} (hv' : v' ∈ s'.versions) :
    (∃ v ∈ s.versions, VersionKept v v')
      ∨ ∃ version, call = .register version ∧ v' = registeredRow version := by
  have hframe : s'.versions = s.versions → ∃ v ∈ s.versions, VersionKept v v' :=
    fun h => ⟨v', h ▸ hv', .refl v'⟩
  cases call with
  | register version =>
      rw [(register_ok h).1, List.mem_append, List.mem_singleton] at hv'
      rcases hv' with hv' | rfl
      · exact .inl ⟨v', hv', .refl v'⟩
      · exact .inr ⟨version, rfl, rfl⟩
  | publish agentID version callerID clock => exact .inl ((publish_cardFrame h).versions v' hv')
  | disable agentID version callerID clock => exact .inl ((disable_cardFrame h).versions v' hv')
  | createRelease value =>
      obtain ⟨⟨row, s₁⟩, hcall, rfl⟩ := map_ok_iff.mp h
      exact .inl ((createRelease_cardFrame hcall).versions v' hv')
  | transitionRelease releaseID target evidence clock =>
      obtain ⟨⟨row, s₁⟩, hcall, rfl⟩ := map_ok_iff.mp h
      exact .inl ((transitionRelease_cardFrame hcall).versions v' hv')
  | createBinding provider binding =>
      obtain ⟨⟨row, s₁⟩, hcall, rfl⟩ := map_ok_iff.mp h
      exact .inl (hframe (createBinding_frame hcall).versions)
  | createChallenge challenge => exact .inl (hframe (createChallenge_frame h).versions)
  | reserveChallenge bindingID challengeID now =>
      obtain ⟨⟨challenge, binding, s₁⟩, hcall, rfl⟩ := map_ok_iff.mp h
      exact .inl (hframe (reserveChallenge_frame hcall).versions)
  | setBindingVerification bindingID status failureCode digest clock =>
      obtain ⟨⟨row, s₁⟩, hcall, rfl⟩ := map_ok_iff.mp h
      exact .inl (hframe (setBindingVerification_frame hcall).versions)

/-! ## What the tables keep -/

structure TrustTables (s : Catalog) : Prop where
  agentIDs : (s.identities.map AgentIdentity.agentID).Nodup
  publicAgentIDs : (s.identities.map AgentIdentity.publicAgentID).Nodup
  identities : ∀ i ∈ s.identities, i.Checks
  providerIDs : (s.providers.map Provider.providerID).Nodup
  providers : ∀ p ∈ s.providers, p.Checks
  bindingIDs : (s.bindings.map fun b => b.bindingID).Nodup
  bindings : ∀ b ∈ s.bindings, b.Checks
  providerOf : ∀ b ∈ s.bindings, ∃ p ∈ s.providers, p.providerID = b.providerID
  versionOf : ∀ b ∈ s.bindings, ∃ v ∈ s.versions, v.key = (b.agentID, b.agentCardVersion)
  challengeIDs : (s.challenges.map VerificationChallenge.challengeID).Nodup
  bindingOf : ∀ c ∈ s.challenges, ∃ b ∈ s.bindings, b.bindingID = c.bindingID

/-- An identity and what becomes of it: at most a provider claims it. -/
structure IdentityKept (i i' : AgentIdentity) : Prop where
  agentID : i'.agentID = i.agentID
  ownerID : i'.ownerID = i.ownerID
  createdAt : i'.createdAt = i.createdAt
  publicAgentID : i'.publicAgentID = i.publicAgentID
  providerID : i.providerID ≠ none → i'.providerID = i.providerID

structure ProviderKept (p p' : Provider) : Prop where
  providerID : p'.providerID = p.providerID
  ownerIdentity : p'.ownerIdentity = p.ownerIdentity
  verified : p.verificationStatus = .verified → p'.verificationStatus = .verified

/-- A verified binding is settled. -/
structure BindingKept (b b' : EndpointBinding) : Prop where
  facts : b'.toBindingFacts = b.toBindingFacts
  verified : b.verificationStatus = .verified → b' = b

/-- A challenge is used once. -/
structure ChallengeKept (c c' : VerificationChallenge) : Prop where
  facts : { c' with usedAt := c.usedAt } = c
  used : c.usedAt ≠ none → c' = c

structure TrustKept (s s' : Catalog) : Prop where
  identities : Table.Kept IdentityKept s.identities s'.identities
  providers : Table.Kept ProviderKept s.providers s'.providers
  bindings : Table.Kept BindingKept s.bindings s'.bindings
  challenges : Table.Kept ChallengeKept s.challenges s'.challenges

theorem IdentityKept.refl (i : AgentIdentity) : IdentityKept i i :=
  ⟨rfl, rfl, rfl, rfl, fun _ => rfl⟩

theorem ProviderKept.refl (p : Provider) : ProviderKept p p := ⟨rfl, rfl, id⟩

theorem BindingKept.refl (b : EndpointBinding) : BindingKept b b := ⟨rfl, fun _ => rfl⟩

theorem ChallengeKept.refl (c : VerificationChallenge) : ChallengeKept c c := ⟨rfl, fun _ => rfl⟩

theorem IdentityKept.trans (i₁ i₂ i₃ : AgentIdentity) (h : IdentityKept i₁ i₂)
    (h' : IdentityKept i₂ i₃) : IdentityKept i₁ i₃ :=
  ⟨h'.agentID.trans h.agentID, h'.ownerID.trans h.ownerID, h'.createdAt.trans h.createdAt,
    h'.publicAgentID.trans h.publicAgentID, fun hne =>
      (h'.providerID (by rw [h.providerID hne]; exact hne)).trans (h.providerID hne)⟩

theorem ProviderKept.trans (p₁ p₂ p₃ : Provider) (h : ProviderKept p₁ p₂)
    (h' : ProviderKept p₂ p₃) : ProviderKept p₁ p₃ :=
  ⟨h'.providerID.trans h.providerID, h'.ownerIdentity.trans h.ownerIdentity,
    fun hp => h'.verified (h.verified hp)⟩

theorem BindingKept.trans (b₁ b₂ b₃ : EndpointBinding) (h : BindingKept b₁ b₂)
    (h' : BindingKept b₂ b₃) : BindingKept b₁ b₃ :=
  ⟨h'.facts.trans h.facts, fun hb => (h'.verified (by rw [h.verified hb]; exact hb)).trans
    (h.verified hb)⟩

theorem ChallengeKept.trans (c₁ c₂ c₃ : VerificationChallenge) (h : ChallengeKept c₁ c₂)
    (h' : ChallengeKept c₂ c₃) : ChallengeKept c₁ c₃ := by
  refine ⟨?_, fun hc => (h'.used (by rw [h.used hc]; exact hc)).trans (h.used hc)⟩
  have h₁ := h.facts
  rw [← h'.facts] at h₁
  exact h₁

theorem TrustKept.refl (s : Catalog) : TrustKept s s :=
  ⟨.refl IdentityKept.refl _, .refl ProviderKept.refl _, .refl BindingKept.refl _,
    .refl ChallengeKept.refl _⟩

theorem TrustKept.trans (h : TrustKept s₁ s₂) (h' : TrustKept s₂ s₃) : TrustKept s₁ s₃ :=
  ⟨h.identities.trans IdentityKept.trans h'.identities,
    h.providers.trans ProviderKept.trans h'.providers,
    h.bindings.trans BindingKept.trans h'.bindings,
    h.challenges.trans ChallengeKept.trans h'.challenges⟩

theorem TrustKept.of_frame (h : TrustFrame s s') : TrustKept s s' := by
  obtain ⟨hidentities, hproviders, hbindings, hchallenges⟩ := h
  refine ⟨?_, ?_, ?_, ?_⟩
  · exact hidentities ▸ .refl IdentityKept.refl _
  · exact hproviders ▸ .refl ProviderKept.refl _
  · exact hbindings ▸ .refl BindingKept.refl _
  · exact hchallenges ▸ .refl ChallengeKept.refl _

/-- Only an agent that no provider has claimed is claimed. -/
theorem Claimed.kept (h : Claimed s s' agentID providerID identity)
    (hkeys : (s.identities.map AgentIdentity.agentID).Nodup) :
    Table.Kept IdentityKept s.identities s'.identities := by
  rw [h.identities]
  split_ifs with hnone
  · refine Table.kept_update IdentityKept.refl fun i hi hid => ?_
    obtain rfl := Table.eq_of_key hkeys hi h.mem (hid.trans h.agent.symm)
    exact ⟨rfl, rfl, rfl, rfl, fun hne => absurd hnone hne⟩
  · exact .refl IdentityKept.refl _

theorem setProviderVerified_kept (clock : Time) (p : Provider) :
    ProviderKept p (setProviderVerified clock p) := ⟨rfl, rfl, fun _ => rfl⟩

theorem TrustChanged.kept (h : TrustChanged s call s') (ht : TrustTables s) : TrustKept s s' := by
  cases h with
  | frame h => exact .of_frame h
  | registered _ _ hidentities hproviders hbindings hchallenges =>
      refine ⟨?_, ?_, ?_, ?_⟩
      · exact hidentities ▸ .append IdentityKept.refl _ _
      · exact hproviders ▸ .refl ProviderKept.refl _
      · exact hbindings ▸ .refl BindingKept.refl _
      · exact hchallenges ▸ .refl ChallengeKept.refl _
  | bound hproviders _ _ _ hclaimed _ _ _ _ hbindings hchallenges =>
      refine ⟨hclaimed.kept ht.agentIDs, ?_, ?_, ?_⟩
      · rcases hproviders with h | ⟨-, -, h⟩
        · exact h ▸ .refl ProviderKept.refl _
        · exact h ▸ .append ProviderKept.refl _ _
      · exact hbindings ▸ .append BindingKept.refl _ _
      · exact hchallenges ▸ .refl ChallengeKept.refl _
  | challenged _ _ _ hchallenges hidentities hproviders hbindings =>
      refine ⟨?_, ?_, ?_, ?_⟩
      · exact hidentities ▸ .refl IdentityKept.refl _
      · exact hproviders ▸ .refl ProviderKept.refl _
      · exact hbindings ▸ .refl BindingKept.refl _
      · exact hchallenges ▸ .append ChallengeKept.refl _ _
  | reserved hc hid _ hunused _ hchallenges hidentities hproviders hbindings =>
      refine ⟨?_, ?_, ?_, ?_⟩
      · exact hidentities ▸ .refl IdentityKept.refl _
      · exact hproviders ▸ .refl ProviderKept.refl _
      · exact hbindings ▸ .refl BindingKept.refl _
      · rw [hchallenges]
        refine Table.kept_update ChallengeKept.refl fun c' hc' hid' => ?_
        obtain rfl := Table.eq_of_key ht.challengeIDs hc' hc (hid'.trans hid.symm)
        exact ⟨rfl, fun h => absurd hunused h⟩
  | @settled _ status _ _ _ _ b hb hid hstatus _ hbindings hproviders hidentities hchallenges =>
      refine ⟨?_, ?_, ?_, ?_⟩
      · exact hidentities ▸ .refl IdentityKept.refl _
      · by_cases hverified : status = .verified
        · rw [if_pos hverified] at hproviders
          rw [hproviders.2.2]
          refine .map fun p _ => ?_
          split_ifs
          · exact setProviderVerified_kept _ p
          · exact .refl p
        · rw [if_neg hverified] at hproviders
          exact hproviders ▸ .refl ProviderKept.refl _
      · rw [hbindings]
        refine Table.kept_update BindingKept.refl fun b' hb' hid' => ?_
        obtain rfl := Table.eq_of_key ht.bindingIDs hb' hb (hid'.trans hid.symm)
        refine ⟨rfl, fun h => ?_⟩
        rcases hstatus with h' | h' <;> exact absurd (h.symm.trans h') (by simp)
      · exact hchallenges ▸ .refl ChallengeKept.refl _

/-- Bindings and challenges point to rows that stay. -/
theorem TrustTables.references (ht : TrustTables s) (hkept : TrustKept s s')
    (hversions : ∀ v ∈ s.versions, ∃ v' ∈ s'.versions, v'.key = v.key) {b : EndpointBinding}
    (hb : b ∈ s.bindings) :
    (∃ p ∈ s'.providers, p.providerID = b.providerID)
      ∧ ∃ v ∈ s'.versions, v.key = (b.agentID, b.agentCardVersion) := by
  obtain ⟨p, hp, hid⟩ := ht.providerOf b hb
  obtain ⟨p', hp', hpkept⟩ := hkept.providers p hp
  obtain ⟨v, hv, hkey⟩ := ht.versionOf b hb
  obtain ⟨v', hv', hvkey⟩ := hversions v hv
  exact ⟨⟨p', hp', hpkept.providerID.trans hid⟩, v', hv', hvkey.trans hkey⟩

/-- A binding of the new state was there before, or the call created it. -/
theorem TrustChanged.binding_origin (h : TrustChanged s call s') {b' : EndpointBinding}
    (hb' : b' ∈ s'.bindings) :
    (∃ b ∈ s.bindings, b'.toBindingFacts = b.toBindingFacts)
      ∨ ∃ provider binding, call = .createBinding provider binding
        ∧ b' = storedBinding binding := by
  cases h with
  | frame h => exact .inl ⟨b', h.bindings ▸ hb', rfl⟩
  | registered _ _ _ _ hbindings => exact .inl ⟨b', hbindings ▸ hb', rfl⟩
  | bound _ _ _ _ _ _ _ _ _ hbindings =>
      rw [hbindings, List.mem_append, List.mem_singleton] at hb'
      rcases hb' with hb' | rfl
      · exact .inl ⟨b', hb', rfl⟩
      · exact .inr ⟨_, _, rfl, rfl⟩
  | challenged _ _ _ _ _ _ hbindings => exact .inl ⟨b', hbindings ▸ hb', rfl⟩
  | reserved _ _ _ _ _ _ _ _ hbindings => exact .inl ⟨b', hbindings ▸ hb', rfl⟩
  | settled _ _ _ _ hbindings =>
      rw [hbindings] at hb'
      rcases Table.mem_update hb' with hb' | ⟨b, hb, -, rfl⟩
      · exact .inl ⟨b', hb', rfl⟩
      · exact .inl ⟨b, hb, rfl⟩

theorem TrustChanged.challenge_origin (h : TrustChanged s call s') {c' : VerificationChallenge}
    (hc' : c' ∈ s'.challenges) :
    (∃ c ∈ s.challenges, c'.bindingID = c.bindingID)
      ∨ ∃ challenge, call = .createChallenge challenge ∧ c' = storedChallenge challenge
        ∧ ∃ b ∈ s.bindings, b.bindingID = challenge.bindingID := by
  cases h with
  | frame h => exact .inl ⟨c', h.challenges ▸ hc', rfl⟩
  | registered _ _ _ _ _ hchallenges => exact .inl ⟨c', hchallenges ▸ hc', rfl⟩
  | bound _ _ _ _ _ _ _ _ _ _ hchallenges => exact .inl ⟨c', hchallenges ▸ hc', rfl⟩
  | challenged _ _ hbinding hchallenges =>
      rw [hchallenges, List.mem_append, List.mem_singleton] at hc'
      rcases hc' with hc' | rfl
      · exact .inl ⟨c', hc', rfl⟩
      · exact .inr ⟨_, rfl, rfl, hbinding⟩
  | reserved _ _ _ _ _ hchallenges =>
      rw [hchallenges] at hc'
      rcases Table.mem_update hc' with hc' | ⟨c, hc, -, rfl⟩
      · exact .inl ⟨c', hc', rfl⟩
      · exact .inl ⟨c, hc, rfl⟩
  | settled _ _ _ _ _ _ _ hchallenges => exact .inl ⟨c', hchallenges ▸ hc', rfl⟩

/-- An identity of the new state was there before, or the call registered
it. -/
theorem TrustChanged.identity_origin (h : TrustChanged s call s') {i' : AgentIdentity}
    (hi' : i' ∈ s'.identities) :
    (∃ i ∈ s.identities, i'.agentID = i.agentID)
      ∨ ∃ version, call = .register version ∧ i' = registeredIdentity version := by
  cases h with
  | frame h => exact .inl ⟨i', h.identities ▸ hi', rfl⟩
  | registered _ _ hidentities =>
      rw [hidentities, List.mem_append, List.mem_singleton] at hi'
      rcases hi' with hi' | rfl
      · exact .inl ⟨i', hi', rfl⟩
      · exact .inr ⟨_, rfl, rfl⟩
  | bound _ _ _ _ hclaimed =>
      rw [hclaimed.identities] at hi'
      split_ifs at hi'
      · rcases Table.mem_update hi' with hi' | ⟨i, hi, -, rfl⟩
        · exact .inl ⟨i', hi', rfl⟩
        · exact .inl ⟨i, hi, rfl⟩
      · exact .inl ⟨i', hi', rfl⟩
  | challenged _ _ _ _ hidentities => exact .inl ⟨i', hidentities ▸ hi', rfl⟩
  | reserved _ _ _ _ _ _ hidentities => exact .inl ⟨i', hidentities ▸ hi', rfl⟩
  | settled _ _ _ _ _ _ hidentities => exact .inl ⟨i', hidentities ▸ hi', rfl⟩

/-- After a claim the agent is the provider's. -/
theorem Claimed.claimed (h : Claimed s s' agentID providerID identity) :
    ∃ i ∈ s'.identities, i.agentID = agentID ∧ i.providerID = some providerID := by
  rw [h.identities]
  split_ifs with hnone
  · exact ⟨setProvider providerID identity, Table.mem_update_of_eq h.mem h.agent, h.agent, rfl⟩
  · exact ⟨identity, h.mem, h.agent, h.provider.resolve_left hnone⟩

theorem setProvider_checks {i : AgentIdentity} (h : i.Checks) (providerID : String) :
    (setProvider providerID i).Checks := ⟨h.agentID, h.ownerID, h.publicAgentID⟩

section TrustChanged

variable (h : TrustChanged s call s') (ht : TrustTables s)

include h ht

theorem TrustChanged.identities :
    (s'.identities.map AgentIdentity.agentID).Nodup
      ∧ (s'.identities.map AgentIdentity.publicAgentID).Nodup ∧ ∀ i ∈ s'.identities, i.Checks := by
  have hsame : s'.identities = s.identities →
      (s'.identities.map AgentIdentity.agentID).Nodup
        ∧ (s'.identities.map AgentIdentity.publicAgentID).Nodup
        ∧ ∀ i ∈ s'.identities, i.Checks := by
    intro h
    rw [h]
    exact ⟨ht.agentIDs, ht.publicAgentIDs, ht.identities⟩
  cases h with
  | frame h => exact hsame h.identities
  | registered hchecks hfresh hidentities =>
      rw [hidentities]
      exact ⟨Table.nodup_concat ht.agentIDs fun i hi => (hfresh i hi).1,
        Table.nodup_concat ht.publicAgentIDs fun i hi => (hfresh i hi).2,
        Table.forall_concat ht.identities hchecks⟩
  | bound _ _ _ _ hclaimed =>
      have hidentities := hclaimed.identities
      split_ifs at hidentities
      · rw [hidentities, Table.map_update AgentIdentity.agentID,
          Table.map_update AgentIdentity.publicAgentID]
        · refine ⟨ht.agentIDs, ht.publicAgentIDs, fun i' hi' => ?_⟩
          rcases Table.mem_update hi' with hi' | ⟨j, hj, -, rfl⟩
          · exact ht.identities i' hi'
          · exact setProvider_checks (ht.identities j hj) _
        · exact fun _ _ _ => rfl
        · exact fun _ _ _ => rfl
      · exact hsame hidentities
  | challenged _ _ _ _ hidentities => exact hsame hidentities
  | reserved _ _ _ _ _ _ hidentities => exact hsame hidentities
  | settled _ _ _ _ _ _ hidentities => exact hsame hidentities

theorem TrustChanged.providers :
    (s'.providers.map Provider.providerID).Nodup ∧ ∀ p ∈ s'.providers, p.Checks := by
  have hsame : s'.providers = s.providers →
      (s'.providers.map Provider.providerID).Nodup ∧ ∀ p ∈ s'.providers, p.Checks := by
    intro h
    rw [h]
    exact ⟨ht.providerIDs, ht.providers⟩
  cases h with
  | frame h => exact hsame h.providers
  | registered _ _ _ hproviders => exact hsame hproviders
  | bound hproviders =>
      rcases hproviders with h | ⟨hchecks, hfresh, h⟩
      · exact hsame h
      · rw [h]
        exact ⟨Table.nodup_concat ht.providerIDs hfresh, Table.forall_concat ht.providers hchecks⟩
  | challenged _ _ _ _ _ hproviders => exact hsame hproviders
  | reserved _ _ _ _ _ _ _ hproviders => exact hsame hproviders
  | @settled _ status _ _ clock _ b _ _ _ _ _ hproviders =>
      split_ifs at hproviders
      · obtain ⟨hchecks, -, h⟩ := hproviders
        rw [h, List.map_map]
        constructor
        · have hids : (Provider.providerID ∘ fun p : Provider =>
              if p.providerID = b.providerID ∧ p.verificationStatus ≠ .suspended
              then setProviderVerified clock p else p) = Provider.providerID := by
            funext p
            simp only [Function.comp_apply]
            split_ifs <;> rfl
          rw [hids]
          exact ht.providerIDs
        · intro p' hp'
          obtain ⟨p, hp, rfl⟩ := List.mem_map.mp hp'
          split_ifs with hupdated
          · exact hchecks p hp hupdated.1 hupdated.2
          · exact ht.providers p hp
      · exact hsame hproviders

theorem TrustChanged.bindings :
    (s'.bindings.map fun b => b.bindingID).Nodup ∧ ∀ b ∈ s'.bindings, b.Checks := by
  have hsame : s'.bindings = s.bindings →
      (s'.bindings.map fun b => b.bindingID).Nodup ∧ ∀ b ∈ s'.bindings, b.Checks := by
    intro h
    rw [h]
    exact ⟨ht.bindingIDs, ht.bindings⟩
  cases h with
  | frame h => exact hsame h.bindings
  | registered _ _ _ _ hbindings => exact hsame hbindings
  | bound _ _ _ _ _ hchecks hfresh _ _ hbindings =>
      rw [hbindings]
      exact ⟨Table.nodup_concat ht.bindingIDs hfresh, Table.forall_concat ht.bindings hchecks⟩
  | challenged _ _ _ _ _ _ hbindings => exact hsame hbindings
  | reserved _ _ _ _ _ _ _ _ hbindings => exact hsame hbindings
  | settled _ _ _ hchecks hbindings =>
      rw [hbindings]
      refine ⟨?_, fun b' hb' => ?_⟩
      · rw [Table.map_update (fun b : EndpointBinding => b.bindingID)]
        · exact ht.bindingIDs
        · exact fun _ _ _ => rfl
      · rcases Table.mem_update hb' with hb' | ⟨b, hb, hid, rfl⟩
        · exact ht.bindings b' hb'
        · exact hchecks b hb hid

theorem TrustChanged.challengeIDs :
    (s'.challenges.map VerificationChallenge.challengeID).Nodup := by
  cases h with
  | frame h => exact h.challenges ▸ ht.challengeIDs
  | registered _ _ _ _ _ hchallenges => exact hchallenges ▸ ht.challengeIDs
  | bound _ _ _ _ _ _ _ _ _ _ hchallenges => exact hchallenges ▸ ht.challengeIDs
  | challenged _ hfresh _ hchallenges =>
      rw [hchallenges]
      exact Table.nodup_concat ht.challengeIDs hfresh
  | reserved _ _ _ _ _ hchallenges =>
      rw [hchallenges, Table.map_update VerificationChallenge.challengeID]
      · exact ht.challengeIDs
      · exact fun _ _ _ => rfl
  | settled _ _ _ _ _ _ _ hchallenges => exact hchallenges ▸ ht.challengeIDs

theorem TrustChanged.tables (hversions : ∀ v ∈ s.versions, ∃ v' ∈ s'.versions, v'.key = v.key) :
    TrustTables s' := by
  have hkept := h.kept ht
  obtain ⟨hagents, hpublic, hidentities⟩ := h.identities ht
  obtain ⟨hproviderIDs, hproviders⟩ := h.providers ht
  obtain ⟨hbindingIDs, hbindings⟩ := h.bindings ht
  have hreferences : ∀ b ∈ s'.bindings, (∃ p ∈ s'.providers, p.providerID = b.providerID)
      ∧ ∃ v ∈ s'.versions, v.key = (b.agentID, b.agentCardVersion) := by
    intro b' hb'
    rcases h.binding_origin hb' with ⟨b, hb, hfacts⟩ | ⟨provider, binding, rfl, rfl⟩
    · have h₁ := ht.references hkept hversions hb
      rw [hfacts]
      exact h₁
    · cases h with
      | frame h => exact ht.references hkept hversions (h.bindings ▸ hb')
      | bound _ _ _ _ _ _ _ hprovider hversion =>
          obtain ⟨v, hv, hkey⟩ := hversion
          obtain ⟨v', hv', hvkey⟩ := hversions v hv
          exact ⟨hprovider, v', hv', hvkey.trans hkey⟩
  refine ⟨hagents, hpublic, hidentities, hproviderIDs, hproviders, hbindingIDs, hbindings,
    fun b hb => (hreferences b hb).1, fun b hb => (hreferences b hb).2, h.challengeIDs ht, ?_⟩
  intro c' hc'
  have hstays : ∀ b ∈ s.bindings, ∃ b' ∈ s'.bindings, b'.bindingID = b.bindingID := by
    intro b hb
    obtain ⟨b', hb', hbkept⟩ := hkept.bindings b hb
    exact ⟨b', hb', by rw [hbkept.facts]⟩
  rcases h.challenge_origin hc' with ⟨c, hc, hid⟩ | ⟨challenge, -, rfl, b, hb, hid⟩
  · obtain ⟨b, hb, hbid⟩ := ht.bindingOf c hc
    obtain ⟨b', hb', hb'id⟩ := hstays b hb
    exact ⟨b', hb', hb'id.trans (hbid.trans hid.symm)⟩
  · obtain ⟨b', hb', hb'id⟩ := hstays b hb
    exact ⟨b', hb', hb'id.trans hid⟩

end TrustChanged

end Catalog

end Nekiro
