import Nekiro.Installability
import Nekiro.PublicShare

/-!
# What the public share depends on

`Resolve` over every catalog that the services reach. A two-run statement:
two catalogs that agree on the registration and on the published releases
of an agent give the same share, whatever else they hold
(`publicShare_published`). The share lists the published releases, and is
refused for one that looks as if its fields were missing.
-/

namespace Nekiro

open Guard
open Strings (UnicodeCase)

namespace Catalog

/-- What a published release may fail of the checks of `Resolve`. -/
theorem Sound.presentable_iff {s : Catalog} {publicAgentID : String} (hs : Sound s)
    {x : PublishedRelease} (hx : s.Publishes publicAgentID x) :
    PublicShareService.presentable x.shown
      ↔ x.publishedAt ≠ 0 ∧ x.cardDigest.1 ≠ List.replicate 32 0 := by
  obtain ⟨i, hi, -, r, hr, hrelease, -, -, v, hv, hkey, -, hcard⟩ := hx
  obtain ⟨card, hcard', hagent, hversion⟩ := hs.cards v hv
  rw [hcard] at hcard'
  cases hcard'
  have hreleaseID : validCatalogIdentifier x.releaseID := by
    rw [← hrelease]
    exact (hs.lifecycle.releases.checks r (List.mem_filter.mp hr).1).releaseID
  have hagentID : validCatalogIdentifier x.card.agentID := by
    rw [hagent]
    exact (hs.lifecycle.versions.checks v hv).agentID
  have hnamed : x.card.version ≠ "" := hversion ▸ hs.named v hv
  have hzero : x.shown.publishedAt.isZero = false ↔ x.publishedAt ≠ 0 := by
    simp [Time.isZero, PublishedRelease.shown, ShareScan.publicRelease]
  constructor
  · rintro ⟨-, -, -, -, -, htime, hdigest⟩
    exact ⟨hzero.mp htime, hdigest⟩
  · rintro ⟨htime, hdigest⟩
    exact ⟨ne_empty_of_validCatalogIdentifier hreleaseID,
      ne_empty_of_validCatalogIdentifier hagentID, hreleaseID, hagentID, hnamed,
      hzero.mpr htime, hdigest⟩

end Catalog

namespace PublicShareService

open Catalog

/-- The share of published releases in order. -/
def shareOf (origin : String) (i : AgentIdentity) (xs : List PublishedRelease) : PublicAgentShare :=
  ⟨"1", i.publicAgentID, origin ++ "/a/" ++ i.publicAgentID, i.createdAt,
    if xs = [] then .notInstallable else .installable, xs.map fun x => share x.shown⟩

/-- `Resolve` of an agent that is registered. -/
theorem resolve_eq {s : Catalog} (hs : Sound s) {i : AgentIdentity} (hi : i ∈ s.identities)
    {ordered : List ShareRow}
    (h : Table.OrderedBy shareKey (s.shareRows i.publicAgentID) ordered) (origin : String) :
    resolve origin i.publicAgentID (getPublicShare (ordered.take 101))
      = if (ordered.filterMap ShareRow.published).length ≤ 100 then do
          require (∀ x ∈ ordered.filterMap ShareRow.published,
            x.publishedAt ≠ 0 ∧ x.cardDigest.1 ≠ List.replicate 32 0)
            (.dependency "public Release projection is invalid" .scan)
          .ok (shareOf origin i (ordered.filterMap ShareRow.published))
        else .error (.dependency "public Agent Release count exceeds bound" .overflow) := by
  have hvalid : validPublicAgentID i.publicAgentID := (hs.trust.identities i hi).publicAgentID
  have hmem := hs.mem_published_iff h
  rw [hs.getPublicShare_eq hi rfl h]
  generalize ordered.filterMap ShareRow.published = xs at hmem ⊢
  rw [resolve, require_ok_iff.mpr hvalid, ok_bind]
  split_ifs with hlength
  · have hpresentable : (∀ r ∈ xs.map PublishedRelease.shown, presentable r)
        ↔ ∀ x ∈ xs, x.publishedAt ≠ 0 ∧ x.cardDigest.1 ≠ List.replicate 32 0 := by
      rw [List.forall_mem_map]
      exact forall₂_congr fun x hx => hs.presentable_iff ((hmem x).mp hx)
    rw [ok_bind, require_ok_iff.mpr ⟨rfl, hvalid⟩, ok_bind]
    by_cases hall : ∀ x ∈ xs, x.publishedAt ≠ 0 ∧ x.cardDigest.1 ≠ List.replicate 32 0
    · rw [require_ok_iff.mpr (hpresentable.mpr hall), require_ok_iff.mpr hall]
      simp only [ok_bind, shareOf, List.map_map, List.map_eq_nil_iff]
      rfl
    · rw [require_of_not (mt hpresentable.mp hall), require_of_not hall]
      rfl
  · rfl

theorem resolve_unknown {s : Catalog} {publicAgentID : String} {rows : List ShareRow}
    (h : s.ShareAnswer publicAgentID rows) (hvalid : validPublicAgentID publicAgentID)
    (hunknown : ∀ i ∈ s.identities, i.publicAgentID ≠ publicAgentID) (origin : String) :
    resolve origin publicAgentID (getPublicShare rows) = .error .notFound := by
  rw [resolve, require_ok_iff.mpr hvalid, getPublicShare_unknown h hunknown]
  rfl

end PublicShareService

/-! ## What the share depends on -/

namespace PublishedRelease

/-- The release without the endpoint of its card and the digest that covers
it. -/
def hideEndpoint (x : PublishedRelease) : PublishedRelease :=
  { x with
    cardDigest := zeros 32
    card := { x.card with protocol := { x.card.protocol with endpoint := "" } } }

end PublishedRelease

def SharedRelease.hideDigest (r : SharedRelease) : SharedRelease := { r with cardDigest := "" }

def PublicAgentShare.hideDigests (share : PublicAgentShare) : PublicAgentShare :=
  { share with releases := share.releases.map SharedRelease.hideDigest }

namespace Catalog

/-- Both catalogs have registered the identifier at the same time, or
neither has. -/
def SameRegistration (s s' : Catalog) (publicAgentID : String) : Prop :=
  ∀ t, (∃ i ∈ s.identities, i.publicAgentID = publicAgentID ∧ i.createdAt = t)
    ↔ ∃ i ∈ s'.identities, i.publicAgentID = publicAgentID ∧ i.createdAt = t

/-- The agent has an installable version with a release. -/
def InstallableRelease (s : Catalog) (agentID : String) : Prop :=
  ∃ v ∈ s.versions, v.agentID = agentID ∧ ∃ entry ownerID,
    s.scanVersion v = some (entry, ownerID) ∧ entry.release ≠ none
      ∧ installabilityError entry = .ok ()

theorem Sound.installableRelease_iff {s : Catalog} (hs : Sound s) (agentID : String) :
    s.InstallableRelease agentID ↔ s.publishedReleases agentID ≠ [] := by
  constructor
  · rintro ⟨v, hv, rfl, entry, ownerID, hscan, hrelease, hok⟩
    rcases (hs.installable_iff hv hscan).mp hok with ⟨r, hr, hkey, hstate⟩ | ⟨hnone, -⟩
    · refine List.ne_nil_of_mem (a := r) (List.mem_filter.mpr ⟨hr, decide_eq_true ⟨?_, hstate⟩⟩)
      exact congrArg Prod.fst hkey
    · rw [(scanVersion_ok hscan).2] at hrelease
      obtain ⟨r, hr⟩ := Option.ne_none_iff_exists'.mp hrelease
      obtain ⟨hr, hkey⟩ := hs.releaseOf_eq_some_iff.mp hr
      exact absurd hkey (hnone r hr)
  · intro hne
    obtain ⟨r, hr⟩ := List.exists_mem_of_ne_nil _ hne
    obtain ⟨hr, hpublished⟩ := List.mem_filter.mp hr
    obtain ⟨hagent, hstate⟩ := of_decide_eq_true hpublished
    obtain ⟨v, hv, hkey⟩ := hs.lifecycle.versionOf r hr
    obtain ⟨entry, ownerID, hscan⟩ := hs.scanVersion hv
    refine ⟨v, hv, (congrArg Prod.fst hkey).trans hagent, entry, ownerID, hscan, ?_, ?_⟩
    · rw [(scanVersion_ok hscan).2, hs.releaseOf_eq_some_iff.mpr ⟨hr, hkey.symm⟩]
      nofun
    · exact (hs.installable_iff hv hscan).mpr (.inl ⟨r, hr, hkey.symm, hstate⟩)

/-- The answer depends on what is published alone. -/
theorem getPublicShare_congr {s s' : Catalog} (hs : Sound s) (hs' : Sound s')
    {publicAgentID : String} (hregistration : s.SameRegistration s' publicAgentID)
    (hpublishes : ∀ x, s.Publishes publicAgentID x ↔ s'.Publishes publicAgentID x)
    {rows rows' : List ShareRow} (hrows : s.ShareAnswer publicAgentID rows)
    (hrows' : s'.ShareAnswer publicAgentID rows') : getPublicShare rows = getPublicShare rows' := by
  by_cases hknown : ∃ i ∈ s.identities, i.publicAgentID = publicAgentID
  · obtain ⟨i, hi, hid⟩ := hknown
    obtain ⟨i', hi', hid', hcreated⟩ := (hregistration i.createdAt).mp ⟨i, hi, hid, rfl⟩
    obtain ⟨ordered, hordered, rfl⟩ := hrows
    obtain ⟨ordered', hordered', rfl⟩ := hrows'
    have hsame : ordered.filterMap ShareRow.published = ordered'.filterMap ShareRow.published := by
      refine PublishedRelease.eq_of_mem_iff (hs.pairwise_before hi hid hordered)
        (hs'.pairwise_before hi' hid' hordered') fun x => ?_
      rw [hs.mem_published_iff hordered, hs'.mem_published_iff hordered', hpublishes]
    rw [hs.getPublicShare_eq hi hid hordered, hs'.getPublicShare_eq hi' hid' hordered', hsame,
      hcreated]
  · have hunknown' : ∀ i ∈ s'.identities, i.publicAgentID ≠ publicAgentID := by
      intro i' hi' hid'
      obtain ⟨i, hi, hid, -⟩ := (hregistration i'.createdAt).mpr ⟨i', hi', hid', rfl⟩
      exact hknown ⟨i, hi, hid⟩
    rw [getPublicShare_unknown hrows fun i hi hid => hknown ⟨i, hi, hid⟩,
      getPublicShare_unknown hrows' hunknown']

end Catalog

namespace PublicShareService

open Catalog

variable {s : Catalog} {i : AgentIdentity}

variable {rows : List ShareRow} {origin : String} {answer : PublicAgentShare}
  {xs : List PublishedRelease}

/-- The number of published releases decides, and what `Resolve` refuses to
show. -/
theorem resolve_ok_iff (hs : Sound s) (hi : i ∈ s.identities)
    (hrows : s.ShareAnswer i.publicAgentID rows) (origin : String) :
    (∃ answer, resolve origin i.publicAgentID (getPublicShare rows) = .ok answer)
      ↔ (s.publishedReleases i.agentID).length ≤ 100
        ∧ ∀ r ∈ s.publishedReleases i.agentID, r.publishedAt ≠ some 0
          ∧ r.cardDigest.1 ≠ List.replicate 32 0 := by
  obtain ⟨ordered, hordered, rfl⟩ := hrows
  have hlength := (hs.releaseIDs_perm hi rfl hordered).length_eq
  rw [List.length_map, List.length_map] at hlength
  have hfields : (∀ x ∈ ordered.filterMap ShareRow.published,
        x.publishedAt ≠ 0 ∧ x.cardDigest.1 ≠ List.replicate 32 0)
      ↔ ∀ r ∈ s.publishedReleases i.agentID, r.publishedAt ≠ some 0
        ∧ r.cardDigest.1 ≠ List.replicate 32 0 := by
    constructor
    · intro h r hr
      obtain ⟨x, hx, -, htime, hdigest⟩ := hs.publishes hi rfl hr
      obtain ⟨hne, hdigest_ne⟩ := h x ((hs.mem_published_iff hordered x).mpr hx)
      rw [← htime, ← hdigest]
      exact ⟨by simpa using hne, hdigest_ne⟩
    · intro h x hx
      obtain ⟨j, hj, hj_id, r, hr, -, htime, hdigest, -⟩ := (hs.mem_published_iff hordered x).mp hx
      obtain rfl := hs.eq_of_publicAgentID hi hj hj_id.symm
      obtain ⟨hne, hdigest_ne⟩ := h r hr
      rw [← hdigest]
      exact ⟨fun hzero => hne (by rw [htime, hzero]), hdigest_ne⟩
  rw [resolve_eq hs hi hordered, hlength, ← hfields]
  split_ifs with hbound
  · simp only [check_bind_ok_iff, require_ok_iff, hbound, true_and]
    exact ⟨fun ⟨_, h, _⟩ => h, fun h => ⟨_, h, rfl⟩⟩
  · simp [hbound]

/-- What a share lists. -/
theorem resolve_ok (hs : Sound s) (hi : i ∈ s.identities)
    (hrows : s.ShareAnswer i.publicAgentID rows)
    (h : resolve origin i.publicAgentID (getPublicShare rows) = .ok answer) :
    ∃ xs : List PublishedRelease, answer = shareOf origin i xs
      ∧ xs.Pairwise PublishedRelease.Before ∧ (∀ x, x ∈ xs ↔ s.Publishes i.publicAgentID x)
      ∧ (xs.map PublishedRelease.releaseID).Perm
        ((s.publishedReleases i.agentID).map fun r => r.releaseID) := by
  obtain ⟨ordered, hordered, rfl⟩ := hrows
  rw [resolve_eq hs hi hordered] at h
  split_ifs at h
  obtain ⟨-, h⟩ := check_bind_ok_iff.mp h
  cases h
  exact ⟨_, rfl, hs.pairwise_before hi rfl hordered, hs.mem_published_iff hordered,
    hs.releaseIDs_perm hi rfl hordered⟩

theorem shareOf_installable :
    (shareOf origin i xs).availability = .installable ↔ (shareOf origin i xs).releases ≠ [] := by
  cases xs <;> simp [shareOf]

/-- The endpoint of a card reaches a share in no field but the digest. -/
theorem shareOf_hideDigests {i' : AgentIdentity} (hid : i.publicAgentID = i'.publicAgentID)
    (hcreated : i.createdAt = i'.createdAt) {ys : List PublishedRelease}
    (h : xs.map PublishedRelease.hideEndpoint = ys.map PublishedRelease.hideEndpoint) :
    (shareOf origin i xs).hideDigests = (shareOf origin i' ys).hideDigests := by
  have hreleases : ∀ xs : List PublishedRelease,
      (xs.map fun x => share x.shown).map SharedRelease.hideDigest
        = (xs.map PublishedRelease.hideEndpoint).map fun x => (share x.shown).hideDigest := by
    intro xs
    rw [List.map_map, List.map_map]
    rfl
  have hnil : xs = [] ↔ ys = [] := by
    rw [← List.length_eq_zero_iff, ← List.length_eq_zero_iff,
      ← List.length_map PublishedRelease.hideEndpoint, h, List.length_map]
  simp only [shareOf, PublicAgentShare.hideDigests, hreleases, h, hid, hcreated, hnil]

theorem exists_of_resolve_ok {publicAgentID : String} (hrows : s.ShareAnswer publicAgentID rows)
    (h : resolve origin publicAgentID (getPublicShare rows) = .ok answer) :
    ∃ i ∈ s.identities, i.publicAgentID = publicAgentID := by
  by_contra hunknown
  have hnone : ∀ i ∈ s.identities, i.publicAgentID ≠ publicAgentID :=
    fun i hi hid => hunknown ⟨i, hi, hid⟩
  rw [resolve, getPublicShare_unknown hrows hnone, check_bind_ok_iff] at h
  cases h.2

theorem hideDigests_congr {s' : Catalog} (hs : Sound s) (hs' : Sound s') {publicAgentID : String}
    (hregistration : s.SameRegistration s' publicAgentID)
    (hpublishes : ∀ y, (∃ x, s.Publishes publicAgentID x ∧ x.hideEndpoint = y)
      ↔ ∃ x, s'.Publishes publicAgentID x ∧ x.hideEndpoint = y) {rows' : List ShareRow}
    (hrows : s.ShareAnswer publicAgentID rows) (hrows' : s'.ShareAnswer publicAgentID rows')
    {answer' : PublicAgentShare}
    (h : resolve origin publicAgentID (getPublicShare rows) = .ok answer)
    (h' : resolve origin publicAgentID (getPublicShare rows') = .ok answer') :
    answer.hideDigests = answer'.hideDigests := by
  obtain ⟨i, hi, rfl⟩ := exists_of_resolve_ok hrows h
  obtain ⟨i', hi', hid, hcreated⟩ := (hregistration i.createdAt).mp ⟨i, hi, rfl, rfl⟩
  rw [← hid] at hrows' h' hpublishes
  obtain ⟨xs, rfl, hsorted, hmem, -⟩ := resolve_ok hs hi hrows h
  obtain ⟨ys, rfl, hsorted', hmem', -⟩ := resolve_ok hs' hi' hrows' h'
  -- what is hidden has no part in the order
  have hhide : ∀ {xs : List PublishedRelease}, xs.Pairwise PublishedRelease.Before →
      (xs.map PublishedRelease.hideEndpoint).Pairwise PublishedRelease.Before :=
    fun hxs => List.pairwise_map.mpr hxs
  refine shareOf_hideDigests hid.symm hcreated.symm
    (PublishedRelease.eq_of_mem_iff (hhide hsorted) (hhide hsorted') fun y => ?_)
  simp only [List.mem_map, hmem, hmem', ← hid]
  exact hpublishes y

end PublicShareService

/-! ## Every two runs -/

section Runs

variable [UnicodeCase] [Semver] [CardFormats] {tick tick' : Time → Time → Bool}
  {config config' : TrustConfig} {p p' : CatalogPool}

open Catalog PublicShareService

/-- **Non-interference.** Of any two catalogs that are reached, the share of
an agent is the same if its registration and its published releases are; it
lists these in order, and is given unless there are more than a hundred or
one of them was published at the zero time or has the zero digest. -/
theorem publicShare_published (hp : p.Reachable tick config) (hp' : p'.Reachable tick' config')
    (origin publicAgentID : String) {rows rows' : List ShareRow}
    (hrows : p.state.catalog.ShareAnswer publicAgentID rows)
    (hrows' : p'.state.catalog.ShareAnswer publicAgentID rows') :
    (p.state.catalog.SameRegistration p'.state.catalog publicAgentID →
        (∀ x, p.state.catalog.Publishes publicAgentID x
          ↔ p'.state.catalog.Publishes publicAgentID x) →
        resolve origin publicAgentID (getPublicShare rows)
          = resolve origin publicAgentID (getPublicShare rows'))
      ∧ (∀ i ∈ p.state.catalog.identities, i.publicAgentID = publicAgentID →
        ((∃ answer, resolve origin publicAgentID (getPublicShare rows) = .ok answer)
          ↔ (p.state.catalog.publishedReleases i.agentID).length ≤ 100
            ∧ ∀ r ∈ p.state.catalog.publishedReleases i.agentID,
              r.publishedAt ≠ some 0 ∧ r.cardDigest.1 ≠ List.replicate 32 0)
        ∧ ∀ answer, resolve origin publicAgentID (getPublicShare rows) = .ok answer →
          (∃ xs : List PublishedRelease, answer = shareOf origin i xs
            ∧ xs.Pairwise PublishedRelease.Before
            ∧ (∀ x, x ∈ xs ↔ p.state.catalog.Publishes publicAgentID x)
            ∧ (xs.map PublishedRelease.releaseID).Perm
              ((p.state.catalog.publishedReleases i.agentID).map fun r => r.releaseID))
          ∧ (answer.availability = .installable ↔ answer.releases ≠ [])
          ∧ (answer.availability = .installable
            ↔ p.state.catalog.InstallableRelease i.agentID))
      ∧ (p.state.catalog.SameRegistration p'.state.catalog publicAgentID →
        (∀ y, (∃ x, p.state.catalog.Publishes publicAgentID x ∧ x.hideEndpoint = y)
          ↔ ∃ x, p'.state.catalog.Publishes publicAgentID x ∧ x.hideEndpoint = y) →
        ∀ answer answer', resolve origin publicAgentID (getPublicShare rows) = .ok answer →
          resolve origin publicAgentID (getPublicShare rows') = .ok answer' →
          answer.hideDigests = answer'.hideDigests)
      ∧ ((∀ i ∈ p.state.catalog.identities, i.publicAgentID ≠ publicAgentID) →
        resolve origin publicAgentID (getPublicShare rows)
          = .error (if validPublicAgentID publicAgentID then .notFound else .invalid)) := by
  have hs := hp.sound
  have hs' := hp'.sound
  refine ⟨fun hregistration hpublishes => ?_, ?_, fun hregistration hpublishes _ _ => ?_, ?_⟩
  · rw [getPublicShare_congr hs hs' hregistration hpublishes hrows hrows']
  · rintro i hi rfl
    refine ⟨resolve_ok_iff hs hi hrows origin, fun answer hanswer => ?_⟩
    obtain ⟨xs, rfl, hsorted, hmem, hperm⟩ := resolve_ok hs hi hrows hanswer
    refine ⟨⟨xs, rfl, hsorted, hmem, hperm⟩, shareOf_installable, ?_⟩
    have hlength := hperm.length_eq
    rw [List.length_map, List.length_map] at hlength
    rw [shareOf_installable, hs.installableRelease_iff, ← List.length_pos_iff,
      ← List.length_pos_iff, ← hlength, shareOf, List.length_map]
  · exact hideDigests_congr hs hs' hregistration hpublishes hrows hrows'
  · intro hunknown
    split_ifs with hvalid
    · exact resolve_unknown hrows hvalid hunknown origin
    · rw [resolve, require_of_not hvalid]
      rfl

end Runs

/-! ## An agent published at the zero time -/

namespace Weather

open Catalog PublicShareService

/-- The release of the agent is published at the time of that call. -/
theorem pool_published : ∀ clock ∈ [(0 : Time), 1000],
    (pool (verified 0 ++ published clock)).any (fun p =>
      (p.state.catalog.identities.map fun i => (i.agentID, i.publicAgentID))
          = [("weather", publicAgentID)]
        ∧ ((p.state.catalog.publishedReleases "weather").map fun r => r.publishedAt) = [some clock]
        ∧ ∀ r ∈ p.state.catalog.publishedReleases "weather",
          r.cardDigest.1 ≠ List.replicate 32 0) = true := by
  decide +kernel

theorem exists_published {clock : Time} (hclock : clock ∈ [(0 : Time), 1000]) :
    let _ : UnicodeCase := ⟨id⟩
    let _ : CardFormats := ⟨fun _ => true, fun _ => true⟩
    let _ : Semver := .only ["1.0.0"]
    ∃ config p, CatalogPool.Reachable (fun _ _ => true) config p
      ∧ ∃ i ∈ p.state.catalog.identities, i.publicAgentID = publicAgentID
        ∧ ((p.state.catalog.publishedReleases i.agentID).map fun r => r.publishedAt) = [some clock]
        ∧ ∀ r ∈ p.state.catalog.publishedReleases i.agentID,
          r.cardDigest.1 ≠ List.replicate 32 0 := by
  have hfacts := pool_published clock hclock
  generalize hrun : pool (verified 0 ++ published clock) = result at hfacts
  cases result with
  | none => cases hfacts
  | some p =>
      obtain ⟨hidentities, htimes, hdigests⟩ := of_decide_eq_true hfacts
      obtain ⟨i, hi, hkey⟩ : ∃ i ∈ p.state.catalog.identities,
          (i.agentID, i.publicAgentID) = ("weather", publicAgentID) :=
        List.mem_map.mp (hidentities ▸ List.mem_cons_self)
      obtain ⟨hagent, hid⟩ := Prod.mk.injEq .. |>.mp hkey
      rw [← hagent] at htimes hdigests
      exact ⟨_, p, ⟨.empty, 0, _, .empty, hrun⟩, i, hi, hid, htimes, hdigests⟩

/-- One published release, and no share: `Resolve` takes the time of its
publication for one that is missing. -/
theorem publicShare_zero_time :
    let _ : UnicodeCase := ⟨id⟩
    let _ : CardFormats := ⟨fun _ => true, fun _ => true⟩
    let _ : Semver := .only ["1.0.0"]
    ∃ config p, CatalogPool.Reachable (fun _ _ => true) config p
      ∧ ∃ i ∈ p.state.catalog.identities, i.publicAgentID = publicAgentID
        ∧ (p.state.catalog.publishedReleases i.agentID).length = 1
        ∧ ∀ origin rows, p.state.catalog.ShareAnswer publicAgentID rows →
          ∀ answer, resolve origin publicAgentID (getPublicShare rows) ≠ .ok answer := by
  intro _ _ _
  obtain ⟨config, p, hp, i, hi, hid, htimes, -⟩ := exists_published List.mem_cons_self
  refine ⟨config, p, hp, i, hi, hid, ?_, fun origin rows hrows answer hanswer => ?_⟩
  · simpa using congrArg List.length htimes
  · rw [← hid] at hrows hanswer
    obtain ⟨-, hfields⟩ := (resolve_ok_iff hp.sound hi hrows origin).mp ⟨answer, hanswer⟩
    obtain ⟨r, hr, htime⟩ : ∃ r ∈ p.state.catalog.publishedReleases i.agentID,
        r.publishedAt = some 0 :=
      List.mem_map.mp (htimes ▸ List.mem_cons_self)
    exact (hfields r hr).1 htime

theorem publicShare_published_weather :
    let _ : UnicodeCase := ⟨id⟩
    let _ : CardFormats := ⟨fun _ => true, fun _ => true⟩
    let _ : Semver := .only ["1.0.0"]
    ∃ config p, CatalogPool.Reachable (fun _ _ => true) config p
      ∧ ∃ rows, p.state.catalog.ShareAnswer publicAgentID rows
        ∧ ∃ answer, resolve "https://nekiro.example" publicAgentID (getPublicShare rows) =
          .ok answer
          ∧ answer.availability = .installable := by
  intro _ _ _
  obtain ⟨config, p, hp, i, hi, hid, htimes, hdigests⟩ :=
    exists_published (List.mem_cons_of_mem _ List.mem_cons_self)
  obtain ⟨config', p', hp', -⟩ := exists_published List.mem_cons_self
  have hanswer : ∀ s : Catalog, ∃ rows, s.ShareAnswer publicAgentID rows :=
    fun s => ⟨_, _, Table.orderedBy_insertionSort _ _, rfl⟩
  obtain ⟨rows, hrows⟩ := hanswer p.state.catalog
  obtain ⟨rows', hrows'⟩ := hanswer p'.state.catalog
  obtain ⟨-, hshare, -⟩ :=
    publicShare_published hp hp' "https://nekiro.example" publicAgentID hrows hrows'
  obtain ⟨hok, hlisted⟩ := hshare i hi hid
  have hlength : (p.state.catalog.publishedReleases i.agentID).length = 1 := by
    simpa using congrArg List.length htimes
  have htime : ∀ r ∈ p.state.catalog.publishedReleases i.agentID, r.publishedAt ≠ some 0 := by
    intro r hr hzero
    have hmem := List.mem_map_of_mem (f := fun r : AgentRelease => r.publishedAt) hr
    rw [htimes, hzero] at hmem
    revert hmem
    decide
  obtain ⟨answer, hanswer⟩ := hok.mpr
    ⟨hlength.symm ▸ by decide, fun r hr => ⟨htime r hr, hdigests r hr⟩⟩
  refine ⟨config, p, hp, rows, hrows, answer, hanswer, ?_⟩
  obtain ⟨⟨xs, rfl, -, -, hperm⟩, hinstallable, -⟩ := hlisted answer hanswer
  rw [hinstallable, ← List.length_pos_iff, shareOf, List.length_map]
  have hxs := hperm.length_eq
  rw [List.length_map, List.length_map, hlength] at hxs
  omega

end Weather

end Nekiro
