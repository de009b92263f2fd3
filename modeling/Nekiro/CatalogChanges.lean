import Nekiro.CatalogStore

/-!
# What a catalog call changes

Versions, releases and the publication clock are written by a few
statements only. `Changed` says once what a committed call can have done to
the three of them; the trust calls and the registry rows around them leave
all three alone. The state machine of `CatalogLifecycle` is derived from it.
-/

namespace Nekiro

open Guard

namespace Catalog

/-! ## The parts that matter -/

/-- The call left versions, releases and the clock as they were. -/
structure Frame (s s' : Catalog) : Prop where
  versions : s'.versions = s.versions
  releases : s'.releases = s.releases
  lastSequence : s'.lastSequence = s.lastSequence

theorem Frame.refl (s : Catalog) : Frame s s := ⟨rfl, rfl, rfl⟩

theorem Frame.trans {s₁ s₂ s₃ : Catalog} (h : Frame s₁ s₂) (h' : Frame s₂ s₃) : Frame s₁ s₃ :=
  ⟨h'.versions.trans h.versions, h'.releases.trans h.releases,
    h'.lastSequence.trans h.lastSequence⟩

/-- The states that a release moves through. -/
inductive Advances : ReleaseState → ReleaseState → Prop
  | verify : Advances .pendingVerification .verified
  | publish : Advances .verified .published
  | suspendVerified : Advances .verified .suspended
  | suspendPublished : Advances .published .suspended
  | revokeVerified : Advances .verified .revoked
  | revokePublished : Advances .published .revoked
  | revokeSuspended : Advances .suspended .revoked

/-- A release and what a transition makes of it. -/
structure ReleaseMoves (r r' : AgentRelease) : Prop where
  checks : r'.Checks
  facts : r'.toReleaseFacts = r.toReleaseFacts
  state : Advances r.state r'.state
  evidence : r.evidence ≠ none → r'.evidence = r.evidence

/-- The releases after `r` became `r'`. -/
def replaceRelease (releases : List AgentRelease) (r r' : AgentRelease) : List AgentRelease :=
  Table.update (fun r => r.releaseID) r.releaseID (fun _ => r') releases

/-- The versions after the row of `key` was updated, if that is admitted. -/
structure VersionUpdate (s s' : Catalog) (key : String × String)
    (set : VersionRow → VersionRow) : Prop where
  versions : s'.versions = Table.update VersionRow.key key set s.versions
  checks : ∀ v ∈ s.versions, v.key = key → (set v).Checks
  sequences : (s'.versions.filterMap VersionRow.publicationSequence).Nodup

inductive Changed (s : Catalog) : Call → Catalog → Prop
  | frame {call : Call} {s' : Catalog} (h : Frame s s') : Changed s call s'
  | registered {call : Call} {s' : Catalog} {row : VersionRow} (hchecks : row.Checks)
      (hfresh : ∀ v ∈ s.versions, v.key ≠ row.key) (hsequence : row.publicationSequence = none)
      (hversions : s'.versions = s.versions ++ [row]) (hreleases : s'.releases = s.releases)
      (hclock : s'.lastSequence = s.lastSequence) : Changed s call s'
  | published {call : Call} {s' : Catalog} {v : VersionRow} {clock : Time} (hv : v ∈ s.versions)
      (hdraft : v.status = .draft) (hfree : ∀ r ∈ s.releases, r.versionKey ≠ v.key)
      (hupdate : VersionUpdate s s' v.key (setPublished clock (s.lastSequence + 1)))
      (hreleases : s'.releases = s.releases) (hclock : s'.lastSequence = s.lastSequence + 1) :
      Changed s call s'
  | disabled {call : Call} {s' : Catalog} {v : VersionRow} {clock : Time} (hv : v ∈ s.versions)
      (hfree : ∀ r ∈ s.releases, r.versionKey ≠ v.key)
      (hupdate : VersionUpdate s s' v.key (setDisabled clock))
      (hreleases : s'.releases = s.releases) (hclock : s'.lastSequence = s.lastSequence) :
      Changed s call s'
  | created {s' : Catalog} {value : AgentRelease} (hchecks : (storedRelease value).Checks)
      (hfresh : ∀ r ∈ s.releases, r.releaseID ≠ value.releaseID
        ∧ r.versionKey ≠ value.versionKey)
      (hversion : ∃ v ∈ s.versions, v.key = value.versionKey)
      (hversions : s'.versions = s.versions)
      (hreleases : s'.releases = s.releases ++ [storedRelease value])
      (hclock : s'.lastSequence = s.lastSequence) : Changed s (.createRelease value) s'
  | releaseVerified {call : Call} {s' : Catalog} {r r' : AgentRelease} (hr : r ∈ s.releases)
      (hmoves : ReleaseMoves r r') (hstate : r'.state = .verified)
      (hversions : s'.versions = s.versions)
      (hreleases : s'.releases = replaceRelease s.releases r r')
      (hclock : s'.lastSequence = s.lastSequence) : Changed s call s'
  | releasePublished {call : Call} {s' : Catalog} {r r' : AgentRelease} {clock : Time}
      (hr : r ∈ s.releases) (hmoves : ReleaseMoves r r') (hstate : r'.state = .published)
      (hupdate : VersionUpdate s s' r.versionKey (setPublished clock (s.lastSequence + 1)))
      (hreleases : s'.releases = replaceRelease s.releases r r')
      (hclock : s'.lastSequence = s.lastSequence + 1) : Changed s call s'
  | releaseStopped {call : Call} {s' : Catalog} {r r' : AgentRelease} {clock : Time}
      (hr : r ∈ s.releases) (hmoves : ReleaseMoves r r')
      (hstate : r'.state = .suspended ∨ r'.state = .revoked)
      (hupdate : VersionUpdate s s' r.versionKey (setDisabled clock))
      (hreleases : s'.releases = replaceRelease s.releases r r')
      (hclock : s'.lastSequence = s.lastSequence) : Changed s call s'

/-! ## Registration -/

theorem writeRow_ok_iff {columns checks : Prop} [Decidable columns] [Decidable checks]
    {table : CatalogTable} {fail : Refusal → CatalogError} :
    writeRow columns checks table fail = .ok () ↔ columns ∧ checks := by
  rw [writeRow, check_bind_ok_iff, require_ok_iff, require_ok_iff]

variable {s s' : Catalog} {agentID version operation callerID bindingID : String}
  {key : String × String} {set : VersionRow → VersionRow} {entry : AgentVersion} {clock : Time}
  {call : Call} {r : AgentRelease} {row binding : EndpointBinding}
  {challenge : VerificationChallenge}

theorem claimIdentity_frame {row : AgentIdentity} (h : s.claimIdentity row = .ok s') :
    Frame s s' := by
  simp only [claimIdentity, check_bind_ok_iff] at h
  obtain ⟨-, h⟩ := h
  split_ifs at h
  · cases h
    exact .refl s
  · obtain ⟨-, h⟩ := check_bind_ok_iff.mp h
    cases h
    exact ⟨rfl, rfl, rfl⟩

theorem insertCapability_frame {row : CapabilityRow} (h : s.insertCapability row = .ok s') :
    Frame s s' := by
  simp only [insertCapability, check_bind_ok_iff] at h
  obtain ⟨-, -, h⟩ := h
  cases h
  exact ⟨rfl, rfl, rfl⟩

theorem insertCapabilities_frame :
    ∀ (skills : List AgentSkill) {s s' : Catalog},
      skills.foldlM (fun s skill => s.insertCapability ⟨agentID, version, skill.id⟩) s = .ok s' →
        Frame s s'
  | [], s, s', h => by
      cases h
      exact .refl s
  | skill :: skills, s, s', h => by
      rw [List.foldlM_cons] at h
      obtain ⟨s₁, hskill, h⟩ := bind_ok_iff.mp h
      exact (insertCapability_frame hskill).trans (insertCapabilities_frame skills h)

theorem register_changed {version : AgentVersion} (h : s.register version = .ok s') :
    Changed s (.register version) s' := by
  simp only [register] at h
  obtain ⟨s₁, hclaim, h⟩ := bind_ok_iff.mp h
  have hframe := claimIdentity_frame hclaim
  split at h
  · cases h
  · simp only [check_bind_ok_iff, require_ok_iff] at h
    obtain ⟨hfresh, -, h⟩ := h
    obtain ⟨s₂, hinsert, h⟩ := bind_ok_iff.mp h
    simp only [insertVersion, check_bind_ok_iff, writeRow_ok_iff, require_ok_iff] at hinsert
    obtain ⟨⟨-, hchecks⟩, -, heq⟩ := hinsert
    cases heq
    have hskills := insertCapabilities_frame _ h
    rw [hframe.versions] at hfresh
    exact .registered hchecks hfresh rfl
      (by rw [hskills.versions, hframe.versions]) (hskills.releases.trans hframe.releases)
      (hskills.lastSequence.trans hframe.lastSequence)

/-! ## The legacy publication -/

theorem advanceClock_ok {sequence : Int} (h : s.advanceClock operation = .ok (sequence, s')) :
    sequence = s.lastSequence + 1 ∧ s' = { s with lastSequence := s.lastSequence + 1 } := by
  simp only [advanceClock, check_bind_ok_iff] at h
  obtain ⟨-, h⟩ := h
  cases h
  exact ⟨rfl, rfl⟩

theorem updateVersion_ok (h : s.updateVersion key operation set = .ok s') :
    VersionUpdate s s' key set ∧ s'.releases = s.releases ∧ s'.lastSequence = s.lastSequence := by
  simp only [updateVersion, check_bind_ok_iff, writeRow_ok_iff, require_ok_iff] at h
  obtain ⟨⟨-, hchecks⟩, hsequences, h⟩ := h
  cases h
  exact ⟨⟨rfl, hchecks, hsequences⟩, rfl, rfl⟩

theorem readVersion_ok {ownerID : String}
    (h : s.readVersion agentID version operation = .ok (entry, ownerID)) :
    ∃ v ∈ s.versions, v.key = (agentID, version) ∧ s.scanVersion v = some (entry, ownerID) := by
  simp only [readVersion] at h
  split at h
  · cases h
  · rename_i v hfound
    split at h
    · cases h
    · rename_i found hscan
      cases h
      exact ⟨v, List.mem_of_find?_eq_some hfound, by simpa using List.find?_some hfound, hscan⟩

/-- A scanned version carries the status and the release of its row. -/
theorem scanVersion_ok {v : VersionRow} {ownerID : String}
    (h : s.scanVersion v = some (entry, ownerID)) :
    entry.status = v.status ∧ entry.release = s.releaseOf v := by
  simp only [scanVersion, Option.bind_eq_bind, Option.bind_eq_some_iff] at h
  obtain ⟨identity, -, card, -, h⟩ := h
  cases h
  exact ⟨rfl, rfl⟩

theorem lockVersion_ok (h : s.lockVersion agentID version callerID = .ok entry) :
    ∃ v ∈ s.versions, v.key = (agentID, version) ∧ entry.status = v.status
      ∧ ∀ r ∈ s.releases, r.versionKey ≠ v.key := by
  simp only [lockVersion] at h
  obtain ⟨⟨found, ownerID⟩, hread, h⟩ := bind_ok_iff.mp h
  simp only [check_bind_ok_iff, require_ok_iff] at h
  obtain ⟨-, hrelease, heq⟩ := h
  cases heq
  obtain ⟨v, hv, hkey, hscan⟩ := readVersion_ok hread
  obtain ⟨hstatus, hof⟩ := scanVersion_ok hscan
  refine ⟨v, hv, hkey, hstatus, ?_⟩
  rw [hof, releaseOf, List.find?_eq_none] at hrelease
  simpa using hrelease

theorem publish_changed (h : s.publish agentID version callerID clock = .ok s') :
    Changed s call s' := by
  simp only [publish] at h
  obtain ⟨entry, hlock, h⟩ := bind_ok_iff.mp h
  obtain ⟨v, hv, hkey, hstatus, hfree⟩ := lockVersion_ok hlock
  simp only [check_bind_ok_iff, require_ok_iff] at h
  obtain ⟨hdraft, h⟩ := h
  obtain ⟨⟨sequence, s₁⟩, hclock, h⟩ := bind_ok_iff.mp h
  obtain ⟨rfl, rfl⟩ := advanceClock_ok hclock
  obtain ⟨hupdate, hreleases, hlast⟩ := updateVersion_ok h
  rw [← hkey] at hupdate
  exact .published hv (hstatus.symm.trans hdraft) hfree
    ⟨hupdate.versions, hupdate.checks, hupdate.sequences⟩ hreleases hlast

theorem disable_changed (h : s.disable agentID version callerID clock = .ok s') :
    Changed s call s' := by
  simp only [disable] at h
  obtain ⟨entry, hlock, h⟩ := bind_ok_iff.mp h
  obtain ⟨v, hv, hkey, -, hfree⟩ := lockVersion_ok hlock
  split_ifs at h
  · cases h
    exact .frame (.refl s)
  · obtain ⟨hupdate, hreleases, hlast⟩ := updateVersion_ok h
    rw [← hkey] at hupdate
    exact .disabled hv hfree hupdate hreleases hlast

/-! ## Releases -/

theorem getRelease_ok {releaseID : String} (h : s.getRelease releaseID = .ok r) :
    r ∈ s.releases ∧ r.releaseID = releaseID := by
  simp only [getRelease] at h
  split at h
  · cases h
  · rename_i found hfound
    cases h
    exact ⟨List.mem_of_find?_eq_some hfound, by simpa using List.find?_some hfound⟩

theorem createRelease_changed {value row : AgentRelease}
    (h : s.createRelease value = .ok (row, s')) :
    Changed s (.createRelease value) s' := by
  simp only [createRelease, check_bind_ok_iff, writeRow_ok_iff, require_ok_iff] at h
  obtain ⟨hid, ⟨-, hchecks⟩, hfresh, ⟨-, hversion, -⟩, heq⟩ := h
  cases heq
  rw [findRelease, List.find?_eq_none] at hid
  exact .created hchecks (fun r hr => ⟨by simpa using hid r hr, hfresh r hr⟩) hversion rfl rfl rfl

/-- By the primary key, the `UPDATE` of a release touches the row that was
read. -/
theorem update_eq_replaceRelease {releases : List AgentRelease}
    (hids : (releases.map fun r => r.releaseID).Nodup) (hr : r ∈ releases)
    (set : AgentRelease → AgentRelease) :
    Table.update (fun r : AgentRelease => r.releaseID) r.releaseID set releases =
      replaceRelease releases r (set r) := by
  refine List.map_congr_left fun q hq => ?_
  by_cases hid : q.releaseID = r.releaseID
  · obtain rfl := Table.eq_of_key hids hq hr hid
    rw [if_pos rfl]
  · rw [if_neg hid, if_neg hid]

/-- The last statement of a transition. -/
theorem updateRelease_ok {s₀ : Catalog} (hreleases : s.releases = s₀.releases)
    (hids : (s₀.releases.map fun r => r.releaseID).Nodup) (hr : r ∈ s₀.releases)
    {set : AgentRelease → AgentRelease} (h : s.updateRelease r.releaseID set = .ok s') :
    (set r).Checks ∧ s'.releases = replaceRelease s₀.releases r (set r)
      ∧ s'.versions = s.versions ∧ s'.lastSequence = s.lastSequence := by
  simp only [updateRelease, check_bind_ok_iff, require_ok_iff] at h
  obtain ⟨-, -, hchecks, heq⟩ := h
  cases heq
  rw [hreleases] at hchecks
  refine ⟨hchecks r hr rfl, ?_, rfl, rfl⟩
  rw [← update_eq_replaceRelease hids hr, ← hreleases]

theorem VersionUpdate.of_frame {s₀ s'' : Catalog} (h : VersionUpdate s s' key set)
    (hbefore : s.versions = s₀.versions) (hafter : s''.versions = s'.versions) :
    VersionUpdate s₀ s'' key set :=
  ⟨by rw [hafter, h.versions, hbefore], by rw [← hbefore]; exact h.checks,
    by rw [hafter]; exact h.sequences⟩

/-- The two transitions that disable the version of the release. -/
theorem stop_changed {s₁ : Catalog} (hids : (s.releases.map fun r => r.releaseID).Nodup)
    (hr : r ∈ s.releases) {set : AgentRelease → AgentRelease}
    (hfacts : (set r).toReleaseFacts = r.toReleaseFacts) (hevidence : (set r).evidence = r.evidence)
    (hstate : Advances r.state (set r).state)
    (htarget : (set r).state = .suspended ∨ (set r).state = .revoked)
    (hversion : s.updateVersion r.versionKey operation (setDisabled clock) = .ok s₁)
    (h : s₁.updateRelease r.releaseID set = .ok s') : Changed s call s' := by
  obtain ⟨hupdate, hreleases, hclock⟩ := updateVersion_ok hversion
  obtain ⟨hchecks, hreleases', hversions, hclock'⟩ := updateRelease_ok hreleases hids hr h
  exact .releaseStopped hr ⟨hchecks, hfacts, hstate, fun _ => hevidence⟩ htarget
    (hupdate.of_frame rfl hversions) hreleases' (hclock'.trans hclock)

theorem transitionRelease_changed (hids : (s.releases.map fun r => r.releaseID).Nodup)
    (hrows : ∀ r ∈ s.releases, r.Checks) {releaseID : String} {target : ReleaseState}
    {evidence : Option Digest} {r' : AgentRelease}
    (h : s.transitionRelease releaseID target evidence clock = .ok (r', s')) :
    Changed s call s' := by
  rw [transitionRelease, bind_ok_iff] at h
  obtain ⟨r, hread, h⟩ := h
  obtain ⟨hr, rfl⟩ := getRelease_ok hread
  split at h
  · rename_i hstate
    split at h
    · cases h
    · rename_i digest
      obtain ⟨s₁, hupdate, heq⟩ := bind_ok_iff.mp h
      cases heq
      obtain ⟨hchecks, hreleases, hversions, hclock⟩ := updateRelease_ok rfl hids hr hupdate
      have hnone : r.evidence = none := by
        rcases (hrows r hr).stateTimestamps with ⟨-, h, -⟩ | ⟨h, -⟩ | ⟨h, -⟩ | ⟨h, -⟩ | ⟨h, -⟩
        · exact h
        all_goals exact absurd (hstate.symm.trans h) (by simp)
      exact .releaseVerified hr ⟨hchecks, rfl, hstate ▸ .verify, fun h => absurd hnone h⟩ rfl
        hversions hreleases hclock
  · rename_i hstate
    obtain ⟨⟨sequence, s₁⟩, hadvance, h⟩ := bind_ok_iff.mp h
    obtain ⟨rfl, rfl⟩ := advanceClock_ok hadvance
    obtain ⟨s₂, hversion, h⟩ := bind_ok_iff.mp h
    obtain ⟨s₃, hupdate, heq⟩ := bind_ok_iff.mp h
    cases heq
    obtain ⟨hupdated, hreleases, hclock⟩ := updateVersion_ok hversion
    obtain ⟨hchecks, hreleases', hversions, hclock'⟩ := updateRelease_ok hreleases hids hr hupdate
    exact .releasePublished hr ⟨hchecks, rfl, hstate ▸ .publish, fun _ => rfl⟩ rfl
      (hupdated.of_frame rfl hversions) hreleases' (hclock'.trans hclock)
  all_goals
    first
    | cases h
    | (rename_i hstate
       obtain ⟨s₁, hversion, h⟩ := bind_ok_iff.mp h
       obtain ⟨s₂, hupdate, heq⟩ := bind_ok_iff.mp h
       cases heq
       refine stop_changed hids hr rfl rfl ?_ (by simp) hversion hupdate
       rw [hstate]
       constructor)

/-! ## Trust -/

theorem claimProvider_frame {row : Provider} (h : s.claimProvider row = .ok s') : Frame s s' := by
  simp only [claimProvider, check_bind_ok_iff] at h
  obtain ⟨-, h⟩ := h
  split_ifs at h
  · cases h
    exact .refl s
  · cases h
    exact ⟨rfl, rfl, rfl⟩

theorem insertBinding_frame (h : s.insertBinding row = .ok s') : Frame s s' := by
  simp only [insertBinding, check_bind_ok_iff] at h
  obtain ⟨-, -, -, h⟩ := h
  cases h
  exact ⟨rfl, rfl, rfl⟩

theorem createBinding_frame {provider : Provider}
    (h : s.createBinding provider binding = .ok (row, s')) : Frame s s' := by
  rw [createBinding, bind_ok_iff] at h
  obtain ⟨s₁, hclaim, h⟩ := h
  refine (claimProvider_frame hclaim).trans ?_
  split at h
  · cases h
  · simp only [check_bind_ok_iff] at h
    obtain ⟨-, -, h⟩ := h
    split at h
    · cases h
    · obtain ⟨-, h⟩ := check_bind_ok_iff.mp h
      obtain ⟨s₃, hinsert, heq⟩ := bind_ok_iff.mp h
      cases heq
      refine Frame.trans ?_ (insertBinding_frame hinsert)
      split_ifs
      · exact ⟨rfl, rfl, rfl⟩
      · exact .refl s₁

theorem createChallenge_frame (h : s.createChallenge challenge = .ok s') : Frame s s' := by
  simp only [createChallenge, check_bind_ok_iff] at h
  obtain ⟨-, -, -, h⟩ := h
  cases h
  exact ⟨rfl, rfl, rfl⟩

theorem reserveChallenge_frame {challengeID : String} {now : Time}
    (h : s.reserveChallenge bindingID challengeID now = .ok (challenge, binding, s')) :
    Frame s s' := by
  rw [reserveChallenge] at h
  split at h
  · cases h
  · simp only [check_bind_ok_iff] at h
    obtain ⟨-, -, h⟩ := h
    split at h
    · cases h
    · simp only [check_bind_ok_iff] at h
      obtain ⟨-, -, h⟩ := h
      cases h
      exact ⟨rfl, rfl, rfl⟩

theorem updateBinding_frame {set : EndpointBinding → EndpointBinding}
    (h : s.updateBinding bindingID set = .ok s') : Frame s s' := by
  simp only [updateBinding, check_bind_ok_iff] at h
  obtain ⟨-, h⟩ := h
  cases h
  exact ⟨rfl, rfl, rfl⟩

theorem verifyProvider_frame {providerID : String}
    (h : s.verifyProvider providerID clock = .ok s') :
    Frame s s' := by
  simp only [verifyProvider, check_bind_ok_iff] at h
  obtain ⟨-, -, h⟩ := h
  cases h
  exact ⟨rfl, rfl, rfl⟩

theorem setBindingVerification_frame {status : VerificationStatus} {failureCode : Option String}
    {digest : Option Digest}
    (h : s.setBindingVerification bindingID status failureCode digest clock = .ok (row, s')) :
    Frame s s' := by
  rw [setBindingVerification] at h
  split at h
  · cases h
  · obtain ⟨-, h⟩ := check_bind_ok_iff.mp h
    obtain ⟨s₁, hupdate, h⟩ := bind_ok_iff.mp h
    refine (updateBinding_frame hupdate).trans ?_
    split_ifs at h
    · obtain ⟨s₂, hprovider, heq⟩ := bind_ok_iff.mp h
      cases heq
      exact verifyProvider_frame hprovider
    · cases h
      exact .refl _

/-! ## Every call -/

/-- **Step lemma.** The primary key and the constraints of the releases are
all a call needs of the state it finds. -/
theorem step_changed (hids : (s.releases.map fun r => r.releaseID).Nodup)
    (hrows : ∀ r ∈ s.releases, r.Checks) (h : s.step call = .ok s') : Changed s call s' := by
  cases call with
  | register version => exact register_changed h
  | publish agentID version callerID clock => exact publish_changed h
  | disable agentID version callerID clock => exact disable_changed h
  | createRelease value =>
      obtain ⟨⟨row, s₁⟩, hcall, rfl⟩ := map_ok_iff.mp h
      exact createRelease_changed hcall
  | transitionRelease releaseID target evidence clock =>
      obtain ⟨⟨row, s₁⟩, hcall, rfl⟩ := map_ok_iff.mp h
      exact transitionRelease_changed hids hrows hcall
  | createBinding provider binding =>
      obtain ⟨⟨row, s₁⟩, hcall, rfl⟩ := map_ok_iff.mp h
      exact .frame (createBinding_frame hcall)
  | createChallenge challenge => exact .frame (createChallenge_frame h)
  | reserveChallenge bindingID challengeID now =>
      obtain ⟨⟨challenge, binding, s₁⟩, hcall, rfl⟩ := map_ok_iff.mp h
      exact .frame (reserveChallenge_frame hcall)
  | setBindingVerification bindingID status failureCode digest clock =>
      obtain ⟨⟨row, s₁⟩, hcall, rfl⟩ := map_ok_iff.mp h
      exact .frame (setBindingVerification_frame hcall)

end Catalog

end Nekiro
