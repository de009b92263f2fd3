import Mathlib.Data.Int.ConditionallyCompleteOrder
import Mathlib.Data.Prod.Lex
import Mathlib.Data.String.Basic
import Mathlib.Order.WithBot
import Nekiro.CatalogRuns

/-!
# The public share

`Store.GetPublicShare` and `PublicShareService.Resolve`, which anyone may
call. The query left-joins versions and releases to the identity, so a
version without a published release stands as a row without one; the order
puts such rows last, and a limit cuts the answer. The loop over the rows
skips them.

Of a sound catalog the answer is a function of the published releases of
the agent (`Sound.getPublicShare_eq`): hidden rows are behind every shown
one, so neither the limit nor the checks of the loop depend on them.
-/

namespace Nekiro

open Guard

/-! ## The model -/

structure PublicAgentRelease where
  releaseID : String
  agentID : String
  name : String
  description : String
  owner : AgentOwner
  agentCardVersion : String
  cardDigest : Digest
  publishedAt : Time
  authenticationType : String
  skills : Option (List AgentSkill)
  permissions : Option (List PermissionDeclaration)
  limits : AgentLimits

structure PublicAgentView where
  publicAgentID : String
  registeredAt : Time
  releases : List PublicAgentRelease

/-- A row of the query: the identity, a version of it and its published
release. -/
abbrev ShareRow := (AgentIdentity × Option VersionRow) × Option AgentRelease

namespace Catalog

/-- The second join of `GetPublicShare`. -/
def publishedOn (row : AgentIdentity × Option VersionRow) (r : AgentRelease) : Bool :=
  match row.2 with
  | none => false
  | some v => decide (r.agentID = v.agentID ∧ r.agentCardVersion = v.version
      ∧ r.state = .published ∧ v.status = .published)

def shareRows (s : Catalog) (publicAgentID : String) : List ShareRow :=
  Table.leftJoin publishedOn
    (Table.leftJoin (fun i v => decide (v.agentID = i.agentID))
      (s.identities.filter fun i => i.publicAgentID = publicAgentID) s.versions)
    s.releases

/-- `ORDER BY r.published_at DESC NULLS LAST, r.release_id ASC`. -/
def shareKey (row : ShareRow) : WithTop Timeᵒᵈ ×ₗ WithTop String :=
  toLex (match row.2 with
    | none => (⊤, ⊤)
    | some r => (match r.publishedAt with
        | none => ⊤
        | some t => (OrderDual.toDual t : Timeᵒᵈ), (r.releaseID : WithTop String)))

/-- The rows that the query may return. -/
def ShareAnswer (s : Catalog) (publicAgentID : String) (rows : List ShareRow) : Prop :=
  ∃ ordered, Table.OrderedBy shareKey (s.shareRows publicAgentID) ordered ∧ rows = ordered.take 101

end Catalog

/-- The variables of the loop. -/
structure ShareScan where
  view : PublicAgentView
  rowCount : Nat

namespace ShareScan

def start : ShareScan := ⟨⟨"", 0, []⟩, 0⟩

/-- A published release with the card of its version. -/
def publicRelease (releaseID : String) (publishedAt : Time) (digest : Digest) (card : AgentCard) :
    PublicAgentRelease :=
  ⟨releaseID, card.agentID, card.name, card.description, card.owner, card.version, digest,
    publishedAt, card.authentication.type, card.skills, card.permissions, card.limits⟩

/-- The identity of a row: taken over until a release was counted. -/
def identify (st : ShareScan) (i : AgentIdentity) : Except CatalogError ShareScan :=
  if st.rowCount = 0 then
    .ok ⟨{ st.view with publicAgentID := i.publicAgentID, registeredAt := i.createdAt }, 0⟩
  else do
    require (st.view.publicAgentID = i.publicAgentID ∧ st.view.registeredAt = i.createdAt)
      (.dependency "public identity rows disagree" .scan)
    pure st

/-- The checks on a release, and the release that is shown. -/
def release (v : VersionRow) (r : AgentRelease) : Except CatalogError PublicAgentRelease :=
  match r.publishedAt with
  | none => .error (.dependency "published public Release has invalid source facts" .scan)
  | some publishedAt => do
      require (v.status = .published)
        (.dependency "published public Release has invalid source facts" .scan)
      match AgentCard.decodeStored v.card with
      | none => .error (.dependency "decode public Agent Card" .encoding)
      | some card => do
          require (card.agentID = r.agentID ∧ card.version = r.agentCardVersion)
            (.dependency "public Release Card identity mismatch" .scan)
          require (v.cardDigest = r.cardDigest) (.dependency "public Release digest mismatch" .scan)
          pure (publicRelease r.releaseID publishedAt r.cardDigest card)

/-- One round of the loop. A row without a version has no status to
scan. -/
def row (st : ShareScan) : ShareRow → Except CatalogError ShareScan
  | ((_, none), _) => .error (.dependency "scan public Agent share" .scan)
  | ((i, some _), none) => st.identify i
  | ((i, some v), some r) => do
      let st ← st.identify i
      let shown ← release v r
      let releases := st.view.releases ++ [shown]
      require (releases.length ≤ 100)
        (.dependency "public Agent Release count exceeds bound" .overflow)
      pure ⟨{ st.view with releases := releases }, st.rowCount + 1⟩

end ShareScan

/-- `GetPublicShare`, of the rows that the query returned. -/
def getPublicShare (rows : List ShareRow) : Except CatalogError PublicAgentView := do
  let st ← rows.foldlM ShareScan.row .start
  require (st.view.publicAgentID ≠ "") .notFound
  pure st.view

/-- `contracts.PublicAgentRelease`. -/
structure SharedRelease where
  releaseID : String
  agentID : String
  name : String
  description : String
  owner : AgentOwner
  agentCardVersion : String
  cardDigest : String
  publishedAt : Time
  authenticationType : String
  skills : Option (List AgentSkill)
  permissions : Option (List PermissionDeclaration)
  limits : AgentLimits

inductive PublicAgentAvailability where
  | installable
  | notInstallable
deriving Repr, DecidableEq

/-- `contracts.PublicAgentShare`. -/
structure PublicAgentShare where
  schemaVersion : String
  publicAgentID : String
  publicURL : String
  registeredAt : Time
  availability : PublicAgentAvailability
  releases : List SharedRelease

namespace PublicShareService

def share (r : PublicAgentRelease) : SharedRelease :=
  ⟨r.releaseID, r.agentID, r.name, r.description, r.owner, r.agentCardVersion,
    Hex.encode r.cardDigest.1, r.publishedAt, r.authenticationType, r.skills,
    r.permissions, r.limits⟩

/-- The checks of `Resolve` on a release. -/
def presentable (r : PublicAgentRelease) : Prop :=
  r.releaseID ≠ "" ∧ r.agentID ≠ "" ∧ validCatalogIdentifier r.releaseID
    ∧ validCatalogIdentifier r.agentID
    ∧ r.agentCardVersion ≠ "" ∧ r.publishedAt.isZero = false
    ∧ r.cardDigest.1 ≠ List.replicate 32 0

instance (r : PublicAgentRelease) : Decidable (presentable r) :=
  inferInstanceAs (Decidable (_ ∧ _ ∧ _ ∧ _ ∧ _ ∧ _ ∧ _))

/-- `Resolve`, with the answer of the store. -/
def resolve (origin publicAgentID : String) (answer : Except CatalogError PublicAgentView) :
    Except CatalogError PublicAgentShare := do
  require (validPublicAgentID publicAgentID) .invalid
  let view ← answer
  require (view.publicAgentID = publicAgentID ∧ validPublicAgentID view.publicAgentID)
    (.dependency "public identity projection mismatch" .scan)
  require (∀ r ∈ view.releases, presentable r)
    (.dependency "public Release projection is invalid" .scan)
  pure ⟨"1", view.publicAgentID, origin ++ "/a/" ++ view.publicAgentID, view.registeredAt,
    if view.releases = [] then .notInstallable else .installable, view.releases.map share⟩

end PublicShareService

/-! ## What is shown -/

/-- A published release with the card of its version. -/
structure PublishedRelease where
  releaseID : String
  publishedAt : Time
  cardDigest : Digest
  card : AgentCard

variable {x y : PublishedRelease} {v : VersionRow}

namespace PublishedRelease

def shown (x : PublishedRelease) : PublicAgentRelease :=
  ShareScan.publicRelease x.releaseID x.publishedAt x.cardDigest x.card

/-- Published later or, at the same time, with a smaller identifier. -/
def Before (x y : PublishedRelease) : Prop :=
  y.publishedAt < x.publishedAt ∨ (y.publishedAt = x.publishedAt ∧ x.releaseID < y.releaseID)

theorem Before.asymm (h : Before x y) : ¬Before y x := by
  rintro (h' | ⟨ht, h'⟩)
  · rcases h with h | ⟨ht, -⟩
    · exact lt_asymm h h'
    · exact absurd ht (ne_of_gt h')
  · rcases h with h | ⟨-, h⟩
    · exact absurd ht (ne_of_gt h)
    · exact lt_asymm h h'

/-- An ordered list is determined by its members. -/
theorem eq_of_mem_iff {xs ys : List PublishedRelease} (hxs : xs.Pairwise Before)
    (hys : ys.Pairwise Before) (h : ∀ x, x ∈ xs ↔ x ∈ ys) : xs = ys := by
  have hne : ∀ {x y : PublishedRelease}, Before x y → x ≠ y := by
    rintro x _ hxy rfl
    exact hxy.asymm hxy
  refine List.Perm.eq_of_pairwise (fun x y _ _ hxy hyx => absurd hyx hxy.asymm) hxs hys ?_
  exact (List.perm_ext_iff_of_nodup (hxs.imp hne) (hys.imp hne)).mpr h

end PublishedRelease

/-- What the row shows. -/
def ShareRow.published : ShareRow → Option PublishedRelease
  | ((_, some v), some r) => do
      let publishedAt ← r.publishedAt
      let card ← AgentCard.decodeStored v.card
      pure ⟨r.releaseID, publishedAt, r.cardDigest, card⟩
  | _ => none

namespace Catalog

def publishedReleases (s : Catalog) (agentID : String) : List AgentRelease :=
  s.releases.filter fun r => r.agentID = agentID ∧ r.state = .published

/-- The release is one of the agent with that public identifier, and its
version is published with that card. -/
def Publishes (s : Catalog) (publicAgentID : String) (x : PublishedRelease) : Prop :=
  ∃ i ∈ s.identities, i.publicAgentID = publicAgentID
    ∧ ∃ r ∈ s.publishedReleases i.agentID, r.releaseID = x.releaseID
      ∧ r.publishedAt = some x.publishedAt ∧ r.cardDigest = x.cardDigest
      ∧ ∃ v ∈ s.versions, v.key = r.versionKey ∧ v.status = .published
        ∧ AgentCard.decodeStored v.card = some x.card

end Catalog

/-- A row of a version whose release is not shown. -/
def ShareRow.Hidden (i : AgentIdentity) (row : ShareRow) : Prop := ∃ v, row = ((i, some v), none)

/-- A row that passes the checks of the loop. -/
structure ShareRow.Shown (i : AgentIdentity) (row : ShareRow) (v : VersionRow) (r : AgentRelease)
    (x : PublishedRelease) : Prop where
  eq : row = ((i, some v), some r)
  releaseID : r.releaseID = x.releaseID
  publishedAt : r.publishedAt = some x.publishedAt
  cardDigest : r.cardDigest = x.cardDigest
  card : AgentCard.decodeStored v.card = some x.card
  release : ShareScan.release v r = .ok x.shown

theorem ShareRow.Shown.published {i : AgentIdentity} {row : ShareRow} {r : AgentRelease}
    (h : row.Shown i v r x) : row.published = some x := by
  rw [h.eq, ShareRow.published, h.publishedAt, h.card, h.releaseID, h.cardDigest]
  rfl

/-! ## The rows of a sound catalog -/

namespace Catalog

variable {s : Catalog} {publicAgentID : String}

variable {i : AgentIdentity} {r : AgentRelease}

theorem mem_shareRows {v : Option VersionRow} {r : Option AgentRelease} :
    ((i, v), r) ∈ s.shareRows publicAgentID ↔
      (i ∈ s.identities ∧ i.publicAgentID = publicAgentID)
        ∧ ((∀ w ∈ v, w ∈ s.versions ∧ w.agentID = i.agentID)
          ∧ (v = none → ∀ w ∈ s.versions, w.agentID ≠ i.agentID))
        ∧ (∀ q ∈ r, q ∈ s.releases ∧ publishedOn (i, v) q = true)
        ∧ (r = none → ∀ q ∈ s.releases, publishedOn (i, v) q = false) := by
  simp only [shareRows, Table.mem_leftJoin, List.mem_filter, decide_eq_true_eq,
    decide_eq_false_iff_not, and_assoc]

theorem exists_mem_shareRows (hi : i ∈ s.identities) (hid : i.publicAgentID = publicAgentID) :
    ∃ row, row ∈ s.shareRows publicAgentID := by
  have hmem : i ∈ s.identities.filter fun i => i.publicAgentID = publicAgentID :=
    List.mem_filter.mpr ⟨hi, decide_eq_true hid⟩
  obtain ⟨v, hv⟩ := Table.exists_mem_leftJoin _ s.versions hmem
  obtain ⟨r, hr⟩ := Table.exists_mem_leftJoin publishedOn s.releases hv
  exact ⟨_, hr⟩

theorem publishedOn_iff :
    publishedOn (i, some v) r = true ↔
      v.key = r.versionKey ∧ r.state = .published ∧ v.status = .published := by
  simp only [publishedOn, decide_eq_true_eq, VersionRow.key, ReleaseFacts.versionKey,
    Prod.mk.injEq, and_assoc]
  rw [eq_comm, @eq_comm _ r.agentCardVersion]

theorem Sound.eq_of_publicAgentID (hs : Sound s) {j : AgentIdentity} (hi : i ∈ s.identities)
    (hj : j ∈ s.identities) (h : i.publicAgentID = j.publicAgentID) : i = j :=
  Table.eq_of_key hs.trust.publicAgentIDs hi hj h

/-- A published release passes every check of the loop. -/
theorem Sound.release_ok (hs : Sound s) (hv : v ∈ s.versions) (hr : r ∈ s.releases)
    (hkey : v.key = r.versionKey) (hstate : r.state = .published)
    (hstatus : v.status = .published) :
    ∃ publishedAt card, r.publishedAt = some publishedAt
      ∧ AgentCard.decodeStored v.card = some card
      ∧ ShareScan.release v r
        = .ok (ShareScan.publicRelease r.releaseID publishedAt r.cardDigest card) := by
  obtain ⟨card, hcard, hagent, hversion⟩ := hs.cards v hv
  obtain ⟨publishedAt, htime⟩ : ∃ t, r.publishedAt = some t := by
    have htimes := (hs.lifecycle.releases.checks r hr).stateTimestamps
    rw [← Option.ne_none_iff_exists']
    rcases htimes with h | h | h | h | h <;> simp_all
  obtain ⟨hkey_agent, hkey_version⟩ := Prod.mk.injEq .. |>.mp hkey
  refine ⟨publishedAt, card, htime, hcard, ?_⟩
  have hcard_key : card.agentID = r.agentID ∧ card.version = r.agentCardVersion :=
    ⟨hagent.trans hkey_agent, hversion.trans hkey_version⟩
  rw [ShareScan.release, htime, hcard]
  simp only [require_ok_iff.mpr hstatus, require_ok_iff.mpr hcard_key,
    require_ok_iff.mpr (hs.digests r hr v hv hkey), ok_bind]
  rfl

theorem Sound.row_cases (hs : Sound s) (hi : i ∈ s.identities)
    (hid : i.publicAgentID = publicAgentID) {row : ShareRow}
    (hrow : row ∈ s.shareRows publicAgentID) :
    row.Hidden i ∨ ∃ v ∈ s.versions, ∃ r ∈ s.publishedReleases i.agentID, ∃ x,
      v.key = r.versionKey ∧ v.status = .published ∧ row.Shown i v r x := by
  obtain ⟨⟨j, v⟩, r⟩ := row
  obtain ⟨⟨hj, hj_id⟩, ⟨hv, hv_none⟩, hr, -⟩ := mem_shareRows.mp hrow
  obtain rfl := hs.eq_of_publicAgentID hi hj (hid.trans hj_id.symm)
  cases v with
  | none =>
      obtain ⟨w, hw, hw_agent⟩ := hs.versionOf i hi
      exact absurd hw_agent (hv_none rfl w hw)
  | some v =>
      obtain ⟨hv, hv_agent⟩ := hv v rfl
      cases r with
      | none => exact .inl ⟨v, rfl⟩
      | some r =>
          obtain ⟨hr, hon⟩ := hr r rfl
          obtain ⟨hkey, hstate, hstatus⟩ := publishedOn_iff.mp hon
          obtain ⟨t, card, ht, hcard, hok⟩ := hs.release_ok hv hr hkey hstate hstatus
          have hr_agent : r.agentID = i.agentID := (congrArg Prod.fst hkey).symm.trans hv_agent
          refine .inr ⟨v, hv, r, ?_, ⟨r.releaseID, t, r.cardDigest, card⟩, hkey, hstatus, rfl, rfl,
            ht, rfl, hcard, hok⟩
          exact List.mem_filter.mpr ⟨hr, by simp [hr_agent, hstate]⟩

theorem Sound.shown_of_published (hs : Sound s) (hi : i ∈ s.identities)
    (hid : i.publicAgentID = publicAgentID) {row : ShareRow}
    (hrow : row ∈ s.shareRows publicAgentID) (hx : row.published = some x) :
    ∃ v ∈ s.versions, ∃ r ∈ s.publishedReleases i.agentID,
      v.key = r.versionKey ∧ v.status = .published ∧ row.Shown i v r x := by
  rcases hs.row_cases hi hid hrow with ⟨v, hv⟩ | ⟨v, hv, r, hr, y, hkey, hstatus, hshown⟩
  · rw [hv] at hx
    cases hx
  · rw [hshown.published] at hx
    cases hx
    exact ⟨v, hv, r, hr, hkey, hstatus, hshown⟩

/-- What the rows show is what the catalog publishes. -/
theorem Sound.published_iff (hs : Sound s) (x : PublishedRelease) :
    (∃ row ∈ s.shareRows publicAgentID, row.published = some x)
      ↔ s.Publishes publicAgentID x := by
  constructor
  · rintro ⟨row, hrow, hx⟩
    have hi := (mem_shareRows.mp hrow).1
    obtain ⟨v, hv, r, hr, hkey, hstatus, hshown⟩ := hs.shown_of_published hi.1 hi.2 hrow hx
    exact ⟨_, hi.1, hi.2, r, hr, hshown.releaseID, hshown.publishedAt, hshown.cardDigest, v, hv,
      hkey, hstatus, hshown.card⟩
  · rintro ⟨i, hi, hid, r, hr, hrelease, htime, hdigest, v, hv, hkey, hstatus, hcard⟩
    obtain ⟨hr, hpublished⟩ := List.mem_filter.mp hr
    obtain ⟨hagent, hstate⟩ := of_decide_eq_true hpublished
    refine ⟨((i, some v), some r), mem_shareRows.mpr ⟨⟨hi, hid⟩, ⟨?_, nofun⟩, ?_, nofun⟩, ?_⟩
    · rintro _ ⟨⟩
      exact ⟨hv, (congrArg Prod.fst hkey).trans hagent⟩
    · rintro _ ⟨⟩
      exact ⟨hr, publishedOn_iff.mpr ⟨hkey, hstate, hstatus⟩⟩
    · rw [ShareRow.published, htime, hcard, hrelease, hdigest]
      rfl

/-- A published release is shown. -/
theorem Sound.publishes (hs : Sound s) (hi : i ∈ s.identities)
    (hid : i.publicAgentID = publicAgentID) (hr : r ∈ s.publishedReleases i.agentID) :
    ∃ x, s.Publishes publicAgentID x ∧ x.releaseID = r.releaseID
      ∧ some x.publishedAt = r.publishedAt ∧ x.cardDigest = r.cardDigest := by
  obtain ⟨hr_mem, hpublished⟩ := List.mem_filter.mp hr
  obtain ⟨-, hstate⟩ := of_decide_eq_true hpublished
  obtain ⟨v, hv, hkey⟩ := hs.lifecycle.versionOf r hr_mem
  have hfits := hs.coupled r hr_mem v hv hkey
  rw [hstate] at hfits
  obtain ⟨t, card, ht, hcard, -⟩ := hs.release_ok hv hr_mem hkey hstate hfits
  exact ⟨⟨r.releaseID, t, r.cardDigest, card⟩,
    ⟨i, hi, hid, r, hr, rfl, ht, rfl, v, hv, hkey, hfits, hcard⟩, rfl, ht.symm, rfl⟩

section Answer

variable {i : AgentIdentity} {ordered : List ShareRow}

/-- Rows that show the same release are the same. -/
theorem Sound.eq_of_releaseID (hs : Sound s) (hi : i ∈ s.identities)
    (hid : i.publicAgentID = publicAgentID) {row row' : ShareRow}
    (hrow : row ∈ s.shareRows publicAgentID) (hrow' : row' ∈ s.shareRows publicAgentID)
    {x' : PublishedRelease} (hx : row.published = some x) (hx' : row'.published = some x')
    (h : x.releaseID = x'.releaseID) : row = row' := by
  obtain ⟨v, hv, r, hr, hkey, -, hshown⟩ := hs.shown_of_published hi hid hrow hx
  obtain ⟨v', hv', r', hr', hkey', -, hshown'⟩ := hs.shown_of_published hi hid hrow' hx'
  obtain rfl := Table.eq_of_key hs.lifecycle.releases.ids (List.mem_filter.mp hr).1
    (List.mem_filter.mp hr').1 (hshown.releaseID.trans (h.trans hshown'.releaseID.symm))
  rw [hshown.eq, hshown'.eq,
    Table.eq_of_key hs.lifecycle.versions.keys hv hv' (hkey.trans hkey'.symm)]

theorem Sound.releaseIDs_nodup (hs : Sound s) (hi : i ∈ s.identities)
    (hid : i.publicAgentID = publicAgentID)
    (h : Table.OrderedBy shareKey (s.shareRows publicAgentID) ordered) :
    ((ordered.filterMap ShareRow.published).map PublishedRelease.releaseID).Nodup := by
  have hrows : (s.shareRows publicAgentID).Nodup := by
    refine Table.nodup_leftJoin (Table.nodup_leftJoin (List.Nodup.filter _ ?_) ?_) ?_
    · exact List.Nodup.of_map _ hs.trust.agentIDs
    · exact List.Nodup.of_map _ hs.lifecycle.versions.keys
    · exact List.Nodup.of_map _ hs.lifecycle.releases.ids
  rw [List.Nodup, List.pairwise_map, List.pairwise_filterMap]
  refine (h.perm.nodup_iff.mpr hrows).imp_of_mem fun {row row'} hrow hrow' hne x hx x' hx' heq => ?_
  exact hne (hs.eq_of_releaseID hi hid (h.perm.mem_iff.mp hrow) (h.perm.mem_iff.mp hrow')
    hx hx' heq)

theorem shareKey_of_shown {row : ShareRow} {r : AgentRelease} (h : row.Shown i v r x) :
    shareKey row = toLex (((OrderDual.toDual x.publishedAt : Timeᵒᵈ) : WithTop Timeᵒᵈ),
      (x.releaseID : WithTop String)) := by
  rw [h.eq, shareKey]
  simp only [h.publishedAt, h.releaseID]

theorem before_of_shareKey (h : toLex (((OrderDual.toDual x.publishedAt : Timeᵒᵈ) : WithTop Timeᵒᵈ),
        (x.releaseID : WithTop String))
      ≤ toLex (((OrderDual.toDual y.publishedAt : Timeᵒᵈ) : WithTop Timeᵒᵈ),
        (y.releaseID : WithTop String))) (hne : x.releaseID ≠ y.releaseID) : x.Before y := by
  rw [Prod.Lex.toLex_le_toLex] at h
  rcases h with h | ⟨heq, hle⟩
  · exact .inl (OrderDual.toDual_lt_toDual.mp (WithTop.coe_lt_coe.mp h))
  · refine .inr ⟨?_, lt_of_le_of_ne (WithTop.coe_le_coe.mp hle) hne⟩
    exact (OrderDual.toDual_inj.mp (WithTop.coe_inj.mp heq)).symm

theorem Sound.pairwise_before (hs : Sound s) (hi : i ∈ s.identities)
    (hid : i.publicAgentID = publicAgentID)
    (h : Table.OrderedBy shareKey (s.shareRows publicAgentID) ordered) :
    (ordered.filterMap ShareRow.published).Pairwise PublishedRelease.Before := by
  have hnodup := hs.releaseIDs_nodup hi hid h
  rw [List.Nodup, List.pairwise_map, List.pairwise_filterMap] at hnodup
  rw [List.pairwise_filterMap]
  refine (h.sorted.and hnodup).imp_of_mem fun {row row'} hrow hrow' hboth x hx x' hx' => ?_
  obtain ⟨v, -, r, -, -, -, hshown⟩ := hs.shown_of_published hi hid (h.perm.mem_iff.mp hrow) hx
  obtain ⟨v', -, r', -, -, -, hshown'⟩ :=
    hs.shown_of_published hi hid (h.perm.mem_iff.mp hrow') hx'
  have hle := hboth.1
  rw [shareKey_of_shown hshown, shareKey_of_shown hshown'] at hle
  exact before_of_shareKey hle (hboth.2 x hx x' hx')

theorem Sound.mem_published_iff (hs : Sound s)
    (h : Table.OrderedBy shareKey (s.shareRows publicAgentID) ordered) (x : PublishedRelease) :
    x ∈ ordered.filterMap ShareRow.published ↔ s.Publishes publicAgentID x := by
  rw [← hs.published_iff, List.mem_filterMap]
  exact exists_congr fun row => and_congr_left fun _ => h.perm.mem_iff

/-- The list has the published releases of the agent. -/
theorem Sound.releaseIDs_perm (hs : Sound s) (hi : i ∈ s.identities)
    (hid : i.publicAgentID = publicAgentID)
    (h : Table.OrderedBy shareKey (s.shareRows publicAgentID) ordered) :
    ((ordered.filterMap ShareRow.published).map PublishedRelease.releaseID).Perm
      ((s.publishedReleases i.agentID).map fun r => r.releaseID) := by
  refine (List.perm_ext_iff_of_nodup (hs.releaseIDs_nodup hi hid h) ?_).mpr fun releaseID => ?_
  · exact hs.lifecycle.releases.ids.sublist (List.filter_sublist.map _)
  simp only [List.mem_map]
  constructor
  · rintro ⟨x, hx, rfl⟩
    obtain ⟨j, hj, hj_id, r, hr, hrelease, -⟩ := (hs.mem_published_iff h x).mp hx
    obtain rfl := hs.eq_of_publicAgentID hi hj (hid.trans hj_id.symm)
    exact ⟨r, hr, hrelease⟩
  · rintro ⟨r, hr, rfl⟩
    obtain ⟨x, hx, hrelease, -⟩ := hs.publishes hi hid hr
    exact ⟨x, (hs.mem_published_iff h x).mpr hx, hrelease⟩

end Answer

end Catalog

/-! ## The loop -/

namespace ShareScan

variable {i : AgentIdentity} {releases : List PublicAgentRelease} {count : Nat}

/-- The variables after rows of one identity. -/
def of (i : AgentIdentity) (releases : List PublicAgentRelease) (count : Nat) : ShareScan :=
  ⟨⟨i.publicAgentID, i.createdAt, releases⟩, count⟩

theorem identify_of : (of i releases count).identify i = .ok (of i releases count) := by
  unfold identify
  split_ifs with hcount
  · have hcount : count = 0 := hcount
    rw [hcount]
    rfl
  · rw [require_ok_iff.mpr ⟨rfl, rfl⟩]
    rfl

theorem row_hidden {row : ShareRow} (h : row.Hidden i) :
    (of i releases count).row row = .ok (of i releases count) := by
  obtain ⟨v, rfl⟩ := h
  exact identify_of

theorem row_shown {row : ShareRow} {r : AgentRelease} (h : row.Shown i v r x) :
    (of i releases count).row row
      = if releases.length < 100 then .ok (of i (releases ++ [x.shown]) (count + 1))
        else .error (.dependency "public Agent Release count exceeds bound" .overflow) := by
  have hlength : (releases ++ [x.shown]).length ≤ 100 ↔ releases.length < 100 := by
    rw [List.length_append]
    exact Iff.rfl
  rw [h.eq, ShareScan.row, identify_of, ok_bind, h.release, ok_bind]
  show (require ((releases ++ [x.shown]).length ≤ 100) _ >>= fun _ =>
    Except.ok (of i (releases ++ [x.shown]) (count + 1))) = _
  split_ifs with hbound
  · rw [require_ok_iff.mpr (hlength.mpr hbound), ok_bind]
  · rw [require_of_not (mt hlength.mp hbound), error_bind]

/-- The first row gives the identity. -/
theorem row_start {row : ShareRow} (h : row.1.1 = i) (hversion : row.1.2 ≠ none) :
    start.row row = (of i [] 0).row row := by
  obtain ⟨⟨j, v⟩, r⟩ := row
  obtain rfl : j = i := h
  cases v with
  | none => exact absurd rfl hversion
  | some v => cases r <;> rfl

theorem foldlM_start {rows : List ShareRow} (hrows : rows ≠ [])
    (h : ∀ row ∈ rows, row.1.1 = i ∧ row.1.2 ≠ none) :
    rows.foldlM row start = rows.foldlM row (of i [] 0) := by
  cases rows with
  | nil => exact absurd rfl hrows
  | cons head rest =>
      obtain ⟨hidentity, hversion⟩ := h head List.mem_cons_self
      rw [List.foldlM_cons, row_start hidentity hversion, List.foldlM_cons]

theorem foldlM_hidden :
    ∀ {rows : List ShareRow}, (∀ row ∈ rows, row.Hidden i) →
      rows.foldlM row (of i releases count) = .ok (of i releases count)
  | [], _ => rfl
  | head :: rest, h => by
      rw [List.foldlM_cons, row_hidden (h head List.mem_cons_self), ok_bind]
      exact foldlM_hidden fun row hrow => h row (List.mem_cons_of_mem _ hrow)

/-- The loop over rows that show a release: the bound is on their
number. -/
theorem foldlM_shown :
    ∀ {rows : List ShareRow} {releases : List PublicAgentRelease} {count : Nat},
      (∀ row ∈ rows, ∃ v r x, row.Shown i v r x) → releases.length ≤ 100 →
        rows.foldlM row (of i releases count)
          = if releases.length + rows.length ≤ 100 then
              .ok (of i (releases ++ (rows.filterMap ShareRow.published).map PublishedRelease.shown)
                (count + rows.length))
            else .error (.dependency "public Agent Release count exceeds bound" .overflow)
  | [], releases, count, _, hreleases => by
      rw [if_pos (by simpa using hreleases)]
      simp [pure, Except.pure]
  | head :: rest, releases, count, h, hreleases => by
      obtain ⟨v, r, x, hshown⟩ := h head List.mem_cons_self
      have hrest : ∀ row ∈ rest, ∃ v r x, row.Shown i v r x :=
        fun row hrow => h row (List.mem_cons_of_mem _ hrow)
      rw [List.foldlM_cons, row_shown hshown, List.length_cons,
        List.filterMap_cons_some hshown.published]
      by_cases hlength : releases.length < 100
      · rw [if_pos hlength, ok_bind, foldlM_shown hrest (by rw [List.length_append]; exact hlength)]
        simp only [List.length_append, List.length_singleton, List.map_cons, List.append_assoc,
          List.singleton_append, Nat.add_assoc, Nat.add_comm 1]
      · rw [if_neg hlength, if_neg (by omega), error_bind]

/-- Neither the limit of the query nor the loop depends on hidden rows that
stand behind the others. -/
theorem getPublicShare_append {shown hidden : List ShareRow}
    (hshown : ∀ row ∈ shown, ∃ v r x, row.Shown i v r x) (hhidden : ∀ row ∈ hidden, row.Hidden i)
    (hrows : shown ++ hidden ≠ []) (hid : i.publicAgentID ≠ "") :
    getPublicShare ((shown ++ hidden).take 101)
      = if shown.length ≤ 100 then
          .ok ⟨i.publicAgentID, i.createdAt,
            (shown.filterMap ShareRow.published).map PublishedRelease.shown⟩
        else .error (.dependency "public Agent Release count exceeds bound" .overflow) := by
  have hstart : ∀ row ∈ (shown ++ hidden).take 101, row.1.1 = i ∧ row.1.2 ≠ none := by
    intro row hrow
    rcases List.mem_append.mp (List.mem_of_mem_take hrow) with h | h
    · obtain ⟨v, r, x, h⟩ := hshown row h
      simp [h.eq]
    · obtain ⟨v, rfl⟩ := hhidden row h
      simp
  rw [getPublicShare, foldlM_start (by simpa using hrows) hstart, List.take_append,
    List.foldlM_append,
    foldlM_shown (fun row hrow => hshown row (List.mem_of_mem_take hrow)) (Nat.zero_le _)]
  by_cases hlength : shown.length ≤ 100
  · rw [List.take_of_length_le (by omega), if_pos (by simpa using hlength), if_pos hlength, ok_bind,
      foldlM_hidden fun row hrow => hhidden row (List.mem_of_mem_take hrow), ok_bind]
    show (require (i.publicAgentID ≠ "") _ >>= fun _ => Except.ok _) = _
    rw [require_ok_iff.mpr hid]
    rfl
  · rw [if_neg (by rw [List.length_take]; simp; omega), if_neg hlength]
    rfl

end ShareScan

namespace Catalog

variable {s : Catalog} {publicAgentID : String} {rows : List ShareRow}

theorem Sound.shareKey_lt (hs : Sound s) {i : AgentIdentity} (hi : i ∈ s.identities)
    (hid : i.publicAgentID = publicAgentID) {row row' : ShareRow}
    (hrow : row ∈ s.shareRows publicAgentID) (hshown : row.2.isSome = true)
    (hhidden : row'.2.isSome = false) :
    shareKey row < shareKey row' := by
  rcases hs.row_cases hi hid hrow with ⟨v, rfl⟩ | ⟨v, -, r, -, x, -, -, h⟩
  · cases hshown
  · have hnone : row'.2 = none := by simpa using hhidden
    rw [shareKey_of_shown h, shareKey, hnone, Prod.Lex.toLex_lt_toLex]
    exact .inl (WithTop.coe_lt_top _)

/-- The answer of an agent that is registered: its published releases, in
order, if they are no more than a hundred. -/
theorem Sound.getPublicShare_eq (hs : Sound s) {i : AgentIdentity} (hi : i ∈ s.identities)
    (hid : i.publicAgentID = publicAgentID) {ordered : List ShareRow}
    (h : Table.OrderedBy shareKey (s.shareRows publicAgentID) ordered) :
    getPublicShare (ordered.take 101)
      = if (ordered.filterMap ShareRow.published).length ≤ 100 then
          .ok ⟨publicAgentID, i.createdAt,
            (ordered.filterMap ShareRow.published).map PublishedRelease.shown⟩
        else .error (.dependency "public Agent Release count exceeds bound" .overflow) := by
  have hcases : ∀ row ∈ ordered, row.Hidden i ∨ ∃ v r x, row.Shown i v r x := by
    intro row hrow
    rcases hs.row_cases hi hid (h.perm.mem_iff.mp hrow) with h | ⟨v, -, r, -, x, -, -, h⟩
    · exact .inl h
    · exact .inr ⟨v, r, x, h⟩
  -- the rows that show a release are in front
  have hsplit := Table.eq_filter_append (p := fun row : ShareRow => row.2.isSome) h.sorted
    fun row hrow row' _ => hs.shareKey_lt hi hid (h.perm.mem_iff.mp hrow)
  have hshown : ∀ row ∈ ordered.filter fun row => row.2.isSome, ∃ v r x, row.Shown i v r x := by
    intro row hrow
    obtain ⟨hrow, hsome⟩ := List.mem_filter.mp hrow
    rcases hcases row hrow with ⟨v, rfl⟩ | h
    · cases hsome
    · exact h
  have hhidden : ∀ row ∈ ordered.filter fun row => !row.2.isSome, row.Hidden i := by
    intro row hrow
    obtain ⟨hrow, hnone⟩ := List.mem_filter.mp hrow
    rcases hcases row hrow with h | ⟨v, r, x, h⟩
    · exact h
    · rw [h.eq] at hnone
      cases hnone
  generalize ordered.filter (fun row => row.2.isSome) = shown at hsplit hshown
  generalize ordered.filter (fun row => !row.2.isSome) = hidden at hsplit hhidden
  have hnone : hidden.filterMap ShareRow.published = [] := by
    rw [List.filterMap_eq_nil_iff]
    intro row hrow
    obtain ⟨v, rfl⟩ := hhidden row hrow
    rfl
  have hpublished : ordered.filterMap ShareRow.published = shown.filterMap ShareRow.published := by
    rw [hsplit, List.filterMap_append, hnone, List.append_nil]
  have hlength : (shown.filterMap ShareRow.published).length = shown.length := by
    rw [List.filterMap_length_eq_length]
    intro row hrow
    obtain ⟨v, r, x, h⟩ := hshown row hrow
    rw [h.published]
    rfl
  have hrows : shown ++ hidden ≠ [] := by
    obtain ⟨row, hrow⟩ := exists_mem_shareRows hi hid
    rw [← hsplit]
    exact List.ne_nil_of_mem (h.perm.mem_iff.mpr hrow)
  have hvalid : i.publicAgentID ≠ "" := by
    intro hempty
    have hpattern := (hs.trust.identities i hi).publicAgentID
    rw [hempty] at hpattern
    revert hpattern
    decide
  rw [hpublished, hlength, hsplit, ShareScan.getPublicShare_append hshown hhidden hrows hvalid, hid]

theorem getPublicShare_unknown (h : s.ShareAnswer publicAgentID rows)
    (hunknown : ∀ i ∈ s.identities, i.publicAgentID ≠ publicAgentID) :
    getPublicShare rows = .error .notFound := by
  obtain ⟨ordered, hordered, rfl⟩ := h
  have hnil : ordered = [] := by
    rw [List.eq_nil_iff_forall_not_mem]
    intro row hrow
    obtain ⟨hi, hid⟩ := (mem_shareRows.mp (hordered.perm.mem_iff.mp hrow)).1
    exact hunknown _ hi hid
  rw [hnil]
  rfl

end Catalog

end Nekiro
