import Nekiro.CatalogReachable

/-!
# Installability

`installabilityError` decides on the version that a lookup scanned. In a
sound catalog its consistency checks never fail, and a version with a
release is installable when the release is published
(`Sound.installable_iff`).
-/

namespace Nekiro

open Guard

/-- `installabilityError`; nil is success. -/
def installabilityError (candidate : AgentVersion) : Except CatalogError Unit :=
  match candidate.release with
  | none =>
      require (candidate.legacyUnverified = true ∧ candidate.status = .published)
        .releaseUnpublished
  | some release => do
      require (release.releaseID ≠ "" ∧ release.agentID = candidate.card.agentID
        ∧ release.agentCardVersion = candidate.card.version
        ∧ release.cardDigest = candidate.cardDigest) (.dependency "" .scan)
      match release.state with
      | .published => require (candidate.status = .published) (.dependency "" .scan)
      | .suspended => .error .releaseSuspended
      | .revoked => .error .releaseRevoked
      | _ => .error .releaseUnpublished

namespace Catalog

variable {s : Catalog} {v : VersionRow}

theorem Sound.releaseOf_eq_some_iff (hs : Sound s) {r : AgentRelease} :
    s.releaseOf v = some r ↔ r ∈ s.releases ∧ r.versionKey = v.key :=
  Table.find?_eq_some_iff hs.lifecycle.releases.keys

/-- Every version can be scanned. -/
theorem Sound.scanVersion (hs : Sound s) (hv : v ∈ s.versions) :
    ∃ entry ownerID, s.scanVersion v = some (entry, ownerID) := by
  obtain ⟨i, hi, hagent⟩ := hs.identityOf v hv
  obtain ⟨card, hcard, -⟩ := hs.cards v hv
  have hfound : s.findIdentity v.agentID = some i :=
    (Table.find?_eq_some_iff hs.trust.agentIDs).mpr ⟨hi, hagent⟩
  rw [Catalog.scanVersion, hfound, hcard]
  exact ⟨_, _, rfl⟩

theorem Sound.installable_iff (hs : Sound s) (hv : v ∈ s.versions) {entry : AgentVersion}
    {ownerID : String} (hscan : s.scanVersion v = some (entry, ownerID)) :
    installabilityError entry = .ok () ↔
      (∃ r ∈ s.releases, r.versionKey = v.key ∧ r.state = .published)
        ∨ ((∀ r ∈ s.releases, r.versionKey ≠ v.key) ∧ v.legacyUnverified = true
          ∧ v.status = .published) := by
  simp only [Catalog.scanVersion, Option.bind_eq_bind, Option.bind_eq_some_iff] at hscan
  obtain ⟨identity, -, card, hcard, heq⟩ := hscan
  cases heq
  obtain ⟨card', hcard', hagent, hversion⟩ := hs.cards v hv
  rw [hcard] at hcard'
  cases hcard'
  cases hrelease : s.releaseOf v with
  | none =>
      have hnone : ∀ r ∈ s.releases, r.versionKey ≠ v.key := fun r hr hkey => by
        rw [hs.releaseOf_eq_some_iff.mpr ⟨hr, hkey⟩] at hrelease
        cases hrelease
      rw [installabilityError, require_ok_iff]
      constructor
      · exact fun h => .inr ⟨hnone, h⟩
      · rintro (⟨r, hr, hkey, -⟩ | ⟨-, h⟩)
        · exact absurd hkey (hnone r hr)
        · exact h
  | some r =>
      obtain ⟨hr, hkey⟩ := hs.releaseOf_eq_some_iff.mp hrelease
      obtain ⟨hkey_agent, hkey_version⟩ := Prod.mk.injEq .. |>.mp hkey
      have hfacts : r.releaseID ≠ "" ∧ r.agentID = card.agentID
          ∧ r.agentCardVersion = card.version ∧ r.cardDigest = v.cardDigest := by
        refine ⟨ne_empty_of_validCatalogIdentifier ?_, hkey_agent.trans hagent.symm,
          hkey_version.trans hversion.symm, (hs.digests r hr v hv hkey.symm).symm⟩
        exact (hs.lifecycle.releases.checks r hr).releaseID
      have honly : ((∃ r ∈ s.releases, r.versionKey = v.key ∧ r.state = .published)
          ∨ ((∀ r ∈ s.releases, r.versionKey ≠ v.key) ∧ v.legacyUnverified = true
            ∧ v.status = .published)) ↔ r.state = .published := by
        constructor
        · rintro (⟨q, hq, hq_key, hstate⟩ | ⟨hnone, -⟩)
          · rwa [← Table.eq_of_key hs.lifecycle.releases.keys hq hr (hq_key.trans hkey.symm)]
          · exact absurd hkey (hnone r hr)
        · exact fun hstate => .inl ⟨r, hr, hkey, hstate⟩
      have hfits := hs.coupled r hr v hv hkey.symm
      rw [honly, installabilityError]
      simp only [require_ok_iff.mpr hfacts, ok_bind]
      cases hstate : r.state with
      | published =>
          rw [hstate] at hfits
          have hpublished : v.status = .published := hfits
          simp only [require_ok_iff, hpublished]
      | _ => simp

end Catalog

end Nekiro
