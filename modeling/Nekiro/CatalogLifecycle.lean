import Nekiro.CatalogChanges

/-!
# The state machine of versions and releases

Two lifecycles write one row of `catalog.agent_versions`: the legacy
publication and the release of the version. From what a committed call can
have changed (`Changed`) this module derives what holds of the tables after
every run (`Lifecycle`), how a release and a version move in one call
(`Evolves`, `VersionMoves`), and that the state of a release and the status
of its version fit together (`Coupled`).

The last needs one thing of the callers: the store writes any state into a
new release, and only the release service keeps to the first two.
-/

namespace Nekiro

namespace Catalog

/-! ## What the tables keep -/

structure VersionTable (versions : List VersionRow) (lastSequence : Int) : Prop where
  keys : (versions.map VersionRow.key).Nodup
  checks : ∀ v ∈ versions, v.Checks
  sequences : (versions.filterMap VersionRow.publicationSequence).Nodup
  range : ∀ v ∈ versions, ∀ n ∈ v.publicationSequence, 0 < n ∧ n ≤ lastSequence

structure ReleaseTable (releases : List AgentRelease) : Prop where
  ids : (releases.map fun r => r.releaseID).Nodup
  keys : (releases.map fun r => r.versionKey).Nodup
  checks : ∀ r ∈ releases, r.Checks

structure Lifecycle (s : Catalog) : Prop where
  versions : VersionTable s.versions s.lastSequence
  releases : ReleaseTable s.releases
  versionOf : ∀ r ∈ s.releases, ∃ v ∈ s.versions, v.key = r.versionKey
  clock : 0 ≤ s.lastSequence

theorem VersionTable.concat {versions : List VersionRow} {last : Int}
    (h : VersionTable versions last) {row : VersionRow} (hchecks : row.Checks)
    (hfresh : ∀ v ∈ versions, v.key ≠ row.key) (hsequence : row.publicationSequence = none) :
    VersionTable (versions ++ [row]) last where
  keys := Table.nodup_concat h.keys hfresh
  checks := Table.forall_concat h.checks hchecks
  sequences := by
    rw [List.filterMap_append, List.filterMap_cons_none hsequence, List.filterMap_nil,
      List.append_nil]
    exact h.sequences
  range := Table.forall_concat h.range (by simp [hsequence])

theorem setPublished_key (clock : Time) (sequence : Int) (v : VersionRow) :
    (setPublished clock sequence v).key = v.key := rfl

theorem setDisabled_key (clock : Time) (v : VersionRow) : (setDisabled clock v).key = v.key := rfl

variable {s s' : Catalog} {set : VersionRow → VersionRow} {releases : List AgentRelease}
  {r r' : AgentRelease} {v v' : VersionRow} {call : Call}

/-- The `UPDATE` statements leave the key alone and write a sequence that
the clock has counted. -/
theorem VersionTable.update (h : VersionTable s.versions s.lastSequence) {key : String × String}
    (hupdate : VersionUpdate s s' key set) (hkey : ∀ v, (set v).key = v.key) {last : Int}
    (hlast : s.lastSequence ≤ last)
    (hrange : ∀ v ∈ s.versions, ∀ n ∈ (set v).publicationSequence, 0 < n ∧ n ≤ last) :
    VersionTable s'.versions last where
  keys := by
    rw [hupdate.versions, Table.map_update VersionRow.key fun v _ _ => hkey v]
    exact h.keys
  checks := by
    intro v' hv'
    rw [hupdate.versions] at hv'
    rcases Table.mem_update hv' with hv | ⟨v, hv, hv_key, rfl⟩
    · exact h.checks v' hv
    · exact hupdate.checks v hv hv_key
  sequences := hupdate.sequences
  range := by
    intro v' hv' n hn
    rw [hupdate.versions] at hv'
    rcases Table.mem_update hv' with hv | ⟨v, hv, -, rfl⟩
    · obtain ⟨hpos, hle⟩ := h.range v' hv n hn
      exact ⟨hpos, hle.trans hlast⟩
    · exact hrange v hv n hn

theorem VersionTable.publish (h : VersionTable s.versions s.lastSequence)
    (hclock : 0 ≤ s.lastSequence) {key : String × String} {clock : Time}
    (hupdate : VersionUpdate s s' key (setPublished clock (s.lastSequence + 1))) :
    VersionTable s'.versions (s.lastSequence + 1) := by
  refine h.update hupdate (setPublished_key clock _) (by omega) fun v _ n hn => ?_
  obtain rfl : s.lastSequence + 1 = n := by simpa [setPublished] using hn
  omega

theorem VersionTable.disable (h : VersionTable s.versions s.lastSequence) {key : String × String}
    {clock : Time} (hupdate : VersionUpdate s s' key (setDisabled clock)) :
    VersionTable s'.versions s.lastSequence :=
  h.update hupdate (setDisabled_key clock) le_rfl h.range

theorem ReleaseTable.concat (h : ReleaseTable releases) {row : AgentRelease} (hchecks : row.Checks)
    (hfresh : ∀ r ∈ releases, r.releaseID ≠ row.releaseID ∧ r.versionKey ≠ row.versionKey) :
    ReleaseTable (releases ++ [row]) where
  ids := Table.nodup_concat h.ids fun r hr => (hfresh r hr).1
  keys := Table.nodup_concat h.keys fun r hr => (hfresh r hr).2
  checks := Table.forall_concat h.checks hchecks

theorem ReleaseTable.eq_of_releaseID (h : ReleaseTable releases) (hr : r ∈ releases)
    (hr' : r' ∈ releases) (hid : r.releaseID = r'.releaseID) : r = r' :=
  Table.eq_of_key h.ids hr hr' hid

theorem ReleaseTable.replace (h : ReleaseTable releases) (hr : r ∈ releases)
    (hmoves : ReleaseMoves r r') : ReleaseTable (replaceRelease releases r r') := by
  -- the new row has the facts of the one it replaces
  have hfacts : ∀ q ∈ releases, q.releaseID = r.releaseID →
      r'.toReleaseFacts = q.toReleaseFacts := by
    intro q hq hid
    rw [h.eq_of_releaseID hq hr hid]
    exact hmoves.facts
  constructor
  · rw [replaceRelease, Table.map_update (fun r : AgentRelease => r.releaseID)]
    · exact h.ids
    · intro q hq hid
      rw [hfacts q hq hid]
  · rw [replaceRelease, Table.map_update (fun r : AgentRelease => r.versionKey)]
    · exact h.keys
    · intro q hq hid
      rw [hfacts q hq hid]
  · intro q hq
    rcases Table.mem_update hq with hq | ⟨-, -, -, rfl⟩
    · exact h.checks q hq
    · exact hmoves.checks

/-! ## How rows move -/

/-- What becomes of a version: published or disabled, and never anything
else once it is disabled. -/
inductive VersionMoves (v : VersionRow) : VersionRow → Prop
  | same : VersionMoves v v
  | published {clock : Time} {sequence : Int} (hchecks : (setPublished clock sequence v).Checks) :
      VersionMoves v (setPublished clock sequence v)
  | disabled {clock : Time} : VersionMoves v (setDisabled clock v)

theorem VersionMoves.key (h : VersionMoves v v') : v'.key = v.key := by
  cases h <;> rfl

/-- The `UPDATE` that publishes a version leaves `disabled_at`, which a
published row may not have. -/
theorem not_checks_setPublished (hv : v.Checks) (hstatus : v.status = .disabled) (clock : Time)
    (sequence : Int) : ¬(setPublished clock sequence v).Checks := by
  intro h
  have hsome : v.disabledAt ≠ none := by
    rcases hv.stateTimestamps with ⟨h, -⟩ | ⟨h, -⟩ | ⟨-, h, -⟩
    · exact absurd (h.symm.trans hstatus) (by simp)
    · exact absurd (h.symm.trans hstatus) (by simp)
    · exact h
  rcases h.stateTimestamps with ⟨h, -⟩ | ⟨-, -, -, h⟩ | ⟨h, -⟩
  · exact absurd h (by simp [setPublished])
  · exact hsome h
  · exact absurd h (by simp [setPublished])

theorem VersionMoves.disabled_of_disabled (h : VersionMoves v v') (hv : v.Checks)
    (hstatus : v.status = .disabled) : v'.status = .disabled := by
  cases h with
  | same => exact hstatus
  | published hchecks => exact absurd hchecks (not_checks_setPublished hv hstatus _ _)
  | disabled => rfl

def Evolves (r r' : AgentRelease) : Prop := r' = r ∨ ReleaseMoves r r'

theorem Evolves.facts (h : Evolves r r') : r'.toReleaseFacts = r.toReleaseFacts := by
  rcases h with rfl | h
  · rfl
  · exact h.facts

theorem Evolves.evidence (h : Evolves r r') (hsome : r.evidence ≠ none) :
    r'.evidence = r.evidence := by
  rcases h with rfl | h
  · rfl
  · exact h.evidence hsome

theorem Evolves.eq_of_revoked (h : Evolves r r') (hstate : r.state = .revoked) : r' = r := by
  rcases h with h | h
  · exact h
  · have hadvances := h.state
    rw [hstate] at hadvances
    cases hadvances

theorem VersionUpdate.moves {key : String × String} (h : VersionUpdate s s' key set)
    (hmoves : ∀ v ∈ s.versions, v.key = key → VersionMoves v (set v)) (hv : v ∈ s.versions) :
    ∃ v' ∈ s'.versions, VersionMoves v v' := by
  rw [h.versions]
  by_cases hkey : v.key = key
  · exact ⟨set v, Table.mem_update_of_eq hv hkey, hmoves v hv hkey⟩
  · exact ⟨v, Table.mem_update_of_ne hv hkey, .same⟩

theorem Changed.version_moves (h : Changed s call s') (hv : v ∈ s.versions) :
    ∃ v' ∈ s'.versions, VersionMoves v v' := by
  cases h with
  | frame h => exact ⟨v, h.versions ▸ hv, .same⟩
  | registered _ _ _ hversions =>
      exact ⟨v, by rw [hversions]; exact List.mem_append_left _ hv, .same⟩
  | created _ _ _ hversions => exact ⟨v, hversions ▸ hv, .same⟩
  | releaseVerified _ _ _ hversions => exact ⟨v, hversions ▸ hv, .same⟩
  | published _ _ _ hupdate =>
      exact hupdate.moves (fun v hv hkey => .published (hupdate.checks v hv hkey)) hv
  | releasePublished _ _ _ hupdate =>
      exact hupdate.moves (fun v hv hkey => .published (hupdate.checks v hv hkey)) hv
  | disabled _ _ hupdate => exact hupdate.moves (fun _ _ _ => .disabled) hv
  | releaseStopped _ _ _ hupdate => exact hupdate.moves (fun _ _ _ => .disabled) hv

theorem ReleaseTable.evolves (h : ReleaseTable releases) {q : AgentRelease} (hr : r ∈ releases)
    (hmoves : ReleaseMoves r r') (hq : q ∈ releases) :
    ∃ q' ∈ replaceRelease releases r r', Evolves q q' := by
  by_cases hid : q.releaseID = r.releaseID
  · obtain rfl := h.eq_of_releaseID hq hr hid
    exact ⟨r', Table.mem_update_of_eq hq rfl, .inr hmoves⟩
  · exact ⟨q, Table.mem_update_of_ne hq hid, .inl rfl⟩

theorem Changed.release_evolves (h : Changed s call s') (ht : ReleaseTable s.releases)
    (hr : r ∈ s.releases) : ∃ r' ∈ s'.releases, Evolves r r' := by
  cases h with
  | frame h => exact ⟨r, h.releases ▸ hr, .inl rfl⟩
  | registered _ _ _ _ hreleases => exact ⟨r, hreleases ▸ hr, .inl rfl⟩
  | published _ _ _ _ hreleases => exact ⟨r, hreleases ▸ hr, .inl rfl⟩
  | disabled _ _ _ hreleases => exact ⟨r, hreleases ▸ hr, .inl rfl⟩
  | created _ _ _ _ hreleases =>
      exact ⟨r, by rw [hreleases]; exact List.mem_append_left _ hr, .inl rfl⟩
  | releaseVerified hmoved hmoves _ _ hreleases =>
      rw [hreleases]
      exact ht.evolves hmoved hmoves hr
  | releasePublished hmoved hmoves _ _ hreleases =>
      rw [hreleases]
      exact ht.evolves hmoved hmoves hr
  | releaseStopped hmoved hmoves _ _ hreleases =>
      rw [hreleases]
      exact ht.evolves hmoved hmoves hr

theorem Changed.clock_le (h : Changed s call s') : s.lastSequence ≤ s'.lastSequence := by
  cases h with
  | frame h => exact h.lastSequence.ge
  | registered _ _ _ _ _ hclock => exact hclock.ge
  | published _ _ _ _ _ hclock => omega
  | disabled _ _ _ _ hclock => exact hclock.ge
  | created _ _ _ _ _ hclock => exact hclock.ge
  | releaseVerified _ _ _ _ _ hclock => exact hclock.ge
  | releasePublished _ _ _ _ _ hclock => omega
  | releaseStopped _ _ _ _ _ hclock => exact hclock.ge

/-! ## Runs -/

/-- The version of a release stays, whatever becomes of both. -/
theorem Changed.versionOf (h : Changed s call s') (hfacts : r'.toReleaseFacts = r.toReleaseFacts)
    (hv : ∃ v ∈ s.versions, v.key = r.versionKey) : ∃ v ∈ s'.versions, v.key = r'.versionKey := by
  obtain ⟨v, hv, hkey⟩ := hv
  obtain ⟨v', hv', hmoves⟩ := h.version_moves hv
  exact ⟨v', hv', by rw [hmoves.key, hkey, hfacts]⟩

/-- A release of the new state was there before, moved, or was created. -/
theorem Changed.release_origin (h : Changed s call s') (hr' : r' ∈ s'.releases) :
    (∃ r ∈ s.releases, Evolves r r')
      ∨ ∃ value, call = .createRelease value ∧ r' = storedRelease value
        ∧ ∃ v ∈ s.versions, v.key = r'.versionKey := by
  have hreplaced : ∀ {r q : AgentRelease}, r ∈ s.releases → ReleaseMoves r q →
      s'.releases = replaceRelease s.releases r q → ∃ r ∈ s.releases, Evolves r r' := by
    intro r q hr hmoves hreleases
    rw [hreleases] at hr'
    rcases Table.mem_update hr' with hr' | ⟨-, -, -, rfl⟩
    · exact ⟨r', hr', .inl rfl⟩
    · exact ⟨r, hr, .inr hmoves⟩
  have hsame : s'.releases = s.releases → ∃ r ∈ s.releases, Evolves r r' :=
    fun hreleases => ⟨r', hreleases ▸ hr', .inl rfl⟩
  cases h with
  | frame h => exact .inl (hsame h.releases)
  | registered _ _ _ _ hreleases => exact .inl (hsame hreleases)
  | published _ _ _ _ hreleases => exact .inl (hsame hreleases)
  | disabled _ _ _ hreleases => exact .inl (hsame hreleases)
  | releaseVerified hr hmoves _ _ hreleases => exact .inl (hreplaced hr hmoves hreleases)
  | releasePublished hr hmoves _ _ hreleases => exact .inl (hreplaced hr hmoves hreleases)
  | releaseStopped hr hmoves _ _ hreleases => exact .inl (hreplaced hr hmoves hreleases)
  | created _ _ hversion _ hreleases =>
      rw [hreleases, List.mem_append, List.mem_singleton] at hr'
      rcases hr' with hr' | rfl
      · exact .inl ⟨r', hr', .inl rfl⟩
      · exact .inr ⟨_, rfl, rfl, hversion⟩

theorem Changed.lifecycle (h : Changed s call s') (ht : Lifecycle s) : Lifecycle s' where
  versions := by
    cases h with
    | frame h =>
        rw [h.versions, h.lastSequence]
        exact ht.versions
    | registered hchecks hfresh hsequence hversions _ hclock =>
        rw [hversions, hclock]
        exact ht.versions.concat hchecks hfresh hsequence
    | published _ _ _ hupdate _ hclock =>
        rw [hclock]
        exact ht.versions.publish ht.clock hupdate
    | disabled _ _ hupdate _ hclock =>
        rw [hclock]
        exact ht.versions.disable hupdate
    | created _ _ _ hversions _ hclock =>
        rw [hversions, hclock]
        exact ht.versions
    | releaseVerified _ _ _ hversions _ hclock =>
        rw [hversions, hclock]
        exact ht.versions
    | releasePublished _ _ _ hupdate _ hclock =>
        rw [hclock]
        exact ht.versions.publish ht.clock hupdate
    | releaseStopped _ _ _ hupdate _ hclock =>
        rw [hclock]
        exact ht.versions.disable hupdate
  releases := by
    cases h with
    | frame h => exact h.releases ▸ ht.releases
    | registered _ _ _ _ hreleases => exact hreleases ▸ ht.releases
    | published _ _ _ _ hreleases => exact hreleases ▸ ht.releases
    | disabled _ _ _ hreleases => exact hreleases ▸ ht.releases
    | created hchecks hfresh _ _ hreleases =>
        rw [hreleases]
        exact ht.releases.concat hchecks hfresh
    | releaseVerified hr hmoves _ _ hreleases =>
        rw [hreleases]
        exact ht.releases.replace hr hmoves
    | releasePublished hr hmoves _ _ hreleases =>
        rw [hreleases]
        exact ht.releases.replace hr hmoves
    | releaseStopped hr hmoves _ _ hreleases =>
        rw [hreleases]
        exact ht.releases.replace hr hmoves
  versionOf := by
    intro r' hr'
    rcases h.release_origin hr' with ⟨r, hr, hevolves⟩ | ⟨-, -, -, hversion⟩
    · exact h.versionOf hevolves.facts (ht.versionOf r hr)
    · exact h.versionOf rfl hversion
  clock := ht.clock.trans h.clock_le

theorem Lifecycle.empty : Lifecycle Catalog.empty :=
  ⟨⟨List.nodup_nil, by simp [Catalog.empty], List.nodup_nil, by simp [Catalog.empty]⟩,
    ⟨List.nodup_nil, List.nodup_nil, by simp [Catalog.empty]⟩, by simp [Catalog.empty], le_rfl⟩

theorem Lifecycle.changed (ht : Lifecycle s) (h : s.step call = .ok s') : Changed s call s' :=
  step_changed ht.releases.ids ht.releases.checks h

/-- No sequence of calls leaves the lifecycle. -/
theorem Lifecycle.run (ht : Lifecycle s) (calls : List Call) : Lifecycle (s.run calls) :=
  Transact.run_induction (fun _ _ _ ht h => (ht.changed h).lifecycle ht) ht calls

/-! ## The two lifecycles together -/

/-- The status that the version of a release has. -/
def ReleaseState.fits : ReleaseState → PublicationStatus → Prop
  | .published, status => status = .published
  | .suspended, status => status = .disabled
  | .revoked, status => status = .disabled
  | _, _ => True

def Coupled (s : Catalog) : Prop :=
  ∀ r ∈ s.releases, ∀ v ∈ s.versions, v.key = r.versionKey → ReleaseState.fits r.state v.status

theorem VersionUpdate.row {key : String × String} (h : VersionUpdate s s' key set)
    (hset : ∀ v, (set v).key = v.key) (hv' : v' ∈ s'.versions) :
    (v'.key ≠ key ∧ v' ∈ s.versions) ∨ (v'.key = key ∧ ∃ v ∈ s.versions, v' = set v) := by
  rw [h.versions] at hv'
  obtain ⟨v, hv, rfl⟩ := List.mem_map.mp hv'
  split_ifs with hkey
  · exact .inr ⟨(hset v).trans hkey, v, hv, rfl⟩
  · exact .inl ⟨hkey, hv⟩

/-- The legacy calls touch a version that has no release. -/
theorem Coupled.of_free (hc : Coupled s) {key : String × String}
    (hupdate : VersionUpdate s s' key set) (hset : ∀ v, (set v).key = v.key)
    (hfree : ∀ r ∈ s.releases, r.versionKey ≠ key) (hreleases : s'.releases = s.releases) :
    Coupled s' := by
  intro r hr v hv hkey
  rw [hreleases] at hr
  rcases hupdate.row hset hv with ⟨-, hv⟩ | ⟨hkey', -⟩
  · exact hc r hr v hv hkey
  · exact absurd (hkey.symm.trans hkey') (hfree r hr)

/-- A transition moves the release and its version to states that fit. -/
theorem Coupled.of_transition (hc : Coupled s) (ht : ReleaseTable s.releases) (hr : r ∈ s.releases)
    (hmoves : ReleaseMoves r r') (hupdate : VersionUpdate s s' r.versionKey set)
    (hset : ∀ v, (set v).key = v.key) (hfits : ∀ v, ReleaseState.fits r'.state (set v).status)
    (hreleases : s'.releases = replaceRelease s.releases r r') : Coupled s' := by
  intro q hq v hv hkey
  rw [hreleases, replaceRelease, Table.update] at hq
  obtain ⟨q, hmem, rfl⟩ := List.mem_map.mp hq
  rcases hupdate.row hset hv with ⟨hne, hv⟩ | ⟨hkey', v, -, rfl⟩
  · split_ifs at hkey ⊢ with hid
    · rw [hmoves.facts] at hkey
      exact absurd hkey hne
    · exact hc q hmem v hv hkey
  · split_ifs at hkey ⊢ with hid
    · exact hfits v
    · have hsame := Table.eq_of_key ht.keys hmem hr (hkey.symm.trans hkey')
      exact absurd (congrArg (fun r : AgentRelease => r.releaseID) hsame) hid

/-- A new release is not yet published and not stopped. -/
def Call.startsUnpublished : Call → Prop
  | .createRelease value =>
      value.state ≠ .published ∧ value.state ≠ .suspended ∧ value.state ≠ .revoked
  | _ => True

theorem ReleaseState.fits_of_unpublished {state : ReleaseState} (hpublished : state ≠ .published)
    (hsuspended : state ≠ .suspended) (hrevoked : state ≠ .revoked) (status : PublicationStatus) :
    ReleaseState.fits state status := by
  cases state <;> trivial

theorem Changed.coupled (h : Changed s call s') (ht : Lifecycle s) (hc : Coupled s)
    (hcall : call.startsUnpublished) : Coupled s' := by
  cases h with
  | frame h =>
      intro r hr v hv
      exact hc r (h.releases ▸ hr) v (h.versions ▸ hv)
  | registered _ hfresh _ hversions hreleases =>
      intro r hr v hv hkey
      rw [hreleases] at hr
      rw [hversions, List.mem_append, List.mem_singleton] at hv
      rcases hv with hv | rfl
      · exact hc r hr v hv hkey
      · obtain ⟨w, hw, hwkey⟩ := ht.versionOf r hr
        exact absurd (hwkey.trans hkey.symm) (hfresh w hw)
  | published _ _ hfree hupdate hreleases =>
      exact hc.of_free hupdate (setPublished_key _ _) hfree hreleases
  | disabled _ hfree hupdate hreleases =>
      exact hc.of_free hupdate (setDisabled_key _) hfree hreleases
  | created _ _ _ hversions hreleases =>
      intro r hr v hv hkey
      rw [hversions] at hv
      rw [hreleases, List.mem_append, List.mem_singleton] at hr
      rcases hr with hr | rfl
      · exact hc r hr v hv hkey
      · exact ReleaseState.fits_of_unpublished hcall.1 hcall.2.1 hcall.2.2 v.status
  | releaseVerified hr hmoves hstate hversions hreleases =>
      intro q hq v hv hkey
      rw [hversions] at hv
      rw [hreleases] at hq
      rcases Table.mem_update hq with hq | ⟨-, -, -, rfl⟩
      · exact hc q hq v hv hkey
      · rw [hstate]
        trivial
  | releasePublished hr hmoves hstate hupdate hreleases =>
      refine hc.of_transition ht.releases hr hmoves hupdate (setPublished_key _ _) ?_ hreleases
      intro v
      rw [hstate]
      rfl
  | releaseStopped hr hmoves hstate hupdate hreleases =>
      refine hc.of_transition ht.releases hr hmoves hupdate (setDisabled_key _) ?_ hreleases
      intro v
      rcases hstate with hstate | hstate
      · rw [hstate]
        rfl
      · rw [hstate]
        rfl

theorem coupled_run {calls : List Call} (hcalls : ∀ call ∈ calls, call.startsUnpublished) :
    Coupled (empty.run calls) := by
  refine Transact.run_history_induction
    (P := fun calls s => (∀ call ∈ calls, call.startsUnpublished) → Lifecycle s ∧ Coupled s)
    ?_ ?_ ?_ calls hcalls |>.2
  · exact fun _ => ⟨.empty, by simp [Coupled, empty]⟩
  · intro pre call s' ih hstep hcalls
    obtain ⟨hpre, hcall⟩ := List.forall_mem_append.mp hcalls
    obtain ⟨ht, hc⟩ := ih hpre
    have hchanged := ht.changed hstep
    exact ⟨hchanged.lifecycle ht, hchanged.coupled ht hc (hcall call List.mem_cons_self)⟩
  · intro pre call ih _ hcalls
    exact ih (List.forall_mem_append.mp hcalls).1

/-! ## One call, and many -/

/-- A call, committed or refused, and a release that was there. -/
theorem commit_evolves (ht : Lifecycle s) (call : Call) (hr : r ∈ s.releases) :
    ∃ r' ∈ (s.run [call]).releases, Evolves r r' := by
  rcases Transact.commit_cases step s call with h | h
  · exact ⟨r, by rw [run, Transact.run, List.foldl_cons, List.foldl_nil, h]; exact hr, .inl rfl⟩
  · exact (ht.changed h).release_evolves ht.releases hr

/-- A release keeps its facts and its evidence for ever, and a revoked one
everything. -/
theorem run_release (ht : Lifecycle s) (calls : List Call) (hr : r ∈ s.releases) :
    ∃ r' ∈ (s.run calls).releases, r'.toReleaseFacts = r.toReleaseFacts
      ∧ (r.evidence ≠ none → r'.evidence = r.evidence) ∧ (r.state = .revoked → r' = r) := by
  refine (Transact.run_induction
    (P := fun s' : Catalog => Lifecycle s' ∧ ∃ r' ∈ s'.releases,
      r'.toReleaseFacts = r.toReleaseFacts ∧ (r.evidence ≠ none → r'.evidence = r.evidence)
        ∧ (r.state = .revoked → r' = r)) ?_ ⟨ht, r, hr, rfl, fun _ => rfl, fun _ => rfl⟩ calls).2
  rintro s₁ call s₂ ⟨ht₁, r₁, hr₁, hfacts, hevidence, hrevoked⟩ hstep
  have hchanged := ht₁.changed hstep
  obtain ⟨r₂, hr₂, hevolves⟩ := hchanged.release_evolves ht₁.releases hr₁
  refine ⟨hchanged.lifecycle ht₁, r₂, hr₂, hevolves.facts.trans hfacts, ?_, ?_⟩
  · intro hsome
    have h₁ := hevidence hsome
    rw [hevolves.evidence (h₁ ▸ hsome), h₁]
  · intro hstate
    obtain rfl := hrevoked hstate
    exact hevolves.eq_of_revoked hstate

/-- A disabled version stays disabled. -/
theorem run_disabled (ht : Lifecycle s) (calls : List Call) (hv : v ∈ s.versions)
    (hstatus : v.status = .disabled) :
    ∃ v' ∈ (s.run calls).versions, v'.key = v.key ∧ v'.status = .disabled := by
  refine (Transact.run_induction
    (P := fun s' : Catalog => Lifecycle s' ∧ ∃ v' ∈ s'.versions, v'.key = v.key
      ∧ v'.status = .disabled) ?_ ⟨ht, v, hv, rfl, hstatus⟩ calls).2
  rintro s₁ call s₂ ⟨ht₁, v₁, hv₁, hkey, hstatus₁⟩ hstep
  have hchanged := ht₁.changed hstep
  obtain ⟨v₂, hv₂, hmoves⟩ := hchanged.version_moves hv₁
  exact ⟨hchanged.lifecycle ht₁, v₂, hv₂, hmoves.key.trans hkey,
    hmoves.disabled_of_disabled (ht₁.versions.checks v₁ hv₁) hstatus₁⟩

theorem run_clock_le (ht : Lifecycle s) (calls : List Call) :
    s.lastSequence ≤ (s.run calls).lastSequence :=
  (Transact.run_induction
    (P := fun s' : Catalog => Lifecycle s' ∧ s.lastSequence ≤ s'.lastSequence)
    (fun _ _ _ ⟨ht₁, hle⟩ hstep =>
      ⟨(ht₁.changed hstep).lifecycle ht₁, hle.trans (ht₁.changed hstep).clock_le⟩)
    ⟨ht, le_rfl⟩ calls).2

/-- **The state machine.** After any calls: how a release moves in one more
call, that it and its version fit, what never changes, and the publication
sequences. -/
theorem release_lifecycle (calls : List Call) :
    let s := empty.run calls
    (∀ call, ∀ r ∈ s.releases, ∃ r' ∈ (s.run [call]).releases,
        r'.toReleaseFacts = r.toReleaseFacts ∧ (r' = r ∨ Advances r.state r'.state))
      ∧ (∀ more, ∀ r ∈ s.releases, r.state = .revoked → r ∈ (s.run more).releases)
      ∧ ((∀ call ∈ calls, call.startsUnpublished) →
        ∀ r ∈ s.releases, ∃ v ∈ s.versions, v.key = r.versionKey
          ∧ (r.state = .published → v.status = .published)
          ∧ (r.state = .suspended ∨ r.state = .revoked → v.status = .disabled))
      ∧ (∀ more, ∀ v ∈ s.versions, v.status = .disabled →
        ∀ v' ∈ (s.run more).versions, v'.key = v.key → v'.status = .disabled)
      ∧ (s.releases.map fun r => r.releaseID).Nodup
      ∧ (s.releases.map fun r => r.versionKey).Nodup
      ∧ (∀ more, ∀ r ∈ s.releases, ∃ r' ∈ (s.run more).releases,
        r'.toReleaseFacts = r.toReleaseFacts
          ∧ (r.evidence ≠ none → r'.evidence = r.evidence))
      ∧ (s.versions.filterMap VersionRow.publicationSequence).Nodup
      ∧ (∀ v ∈ s.versions, ∀ n ∈ v.publicationSequence, 0 < n ∧ n ≤ s.lastSequence)
      ∧ ∀ more, s.lastSequence ≤ (s.run more).lastSequence := by
  intro s
  have ht : Lifecycle s := Lifecycle.empty.run calls
  refine ⟨?_, ?_, ?_, ?_, ht.releases.ids, ht.releases.keys, ?_, ht.versions.sequences,
    ht.versions.range, fun more => run_clock_le ht more⟩
  · intro call r hr
    obtain ⟨r', hr', hevolves⟩ := commit_evolves ht call hr
    exact ⟨r', hr', hevolves.facts, hevolves.imp id fun h => h.state⟩
  · intro more r hr hrevoked
    obtain ⟨r', hr', -, -, hsame⟩ := run_release ht more hr
    rw [← hsame hrevoked]
    exact hr'
  · intro hcalls r hr
    obtain ⟨v, hv, hkey⟩ := ht.versionOf r hr
    have hfits := coupled_run hcalls r hr v hv hkey
    refine ⟨v, hv, hkey, ?_, ?_⟩
    · intro hstate
      rwa [hstate] at hfits
    · rintro (hstate | hstate)
      · rwa [hstate] at hfits
      · rwa [hstate] at hfits
  · intro more v hv hdisabled v' hv' hkey
    obtain ⟨w, hw, hwkey, hwstatus⟩ := run_disabled ht more hv hdisabled
    rw [Table.eq_of_key (ht.run more).versions.keys hv' hw (hkey.trans hwkey.symm)]
    exact hwstatus
  · intro more r hr
    obtain ⟨r', hr', hfacts, hevidence, -⟩ := run_release ht more hr
    exact ⟨r', hr', hfacts, hevidence⟩

/-! ## A run -/

/-- An agent is registered, its endpoint bound, and a release created in
the given state. -/
def createdAs (state : ReleaseState) (publishedAt : Option Time) : List Call :=
  let digest : Digest := zeros 32
  let card : AgentCard := ⟨"0.2", "weather", "Weather", "", ⟨"alice", ""⟩, "1.0.0",
    ⟨"a2a", "", "", "https://weather.example"⟩, some [], ⟨"none"⟩, some [], ⟨1, [], [], false⟩⟩
  let provider : Provider :=
    ⟨"acme", "alice", .unverified, verificationMethodHTTPWellKnown, none, 0, 0⟩
  let binding : EndpointBinding :=
    ⟨⟨"b1", "acme", "weather", "1.0.0", "https://weather.example", "https://weather.example", "/",
      verificationMethodHTTPWellKnown, 0⟩, .pending, none, none, 0, none, none⟩
  [.register ⟨"agt_00000000000000000000000000000000", card, [], digest, .draft, 0, none, none, none,
      false, none⟩,
    .createBinding provider binding,
    .createRelease ⟨⟨"r1", "acme", "weather", "1.0.0", digest, "b1", "https://weather.example", "/",
      verificationMethodHTTPWellKnown, 0⟩, some digest, state, 0, some 0, publishedAt, none, none⟩]

/-- The store takes a release that is published from the start; its version
is a draft. -/
theorem published_release_of_draft :
    let s := empty.run (createdAs .published (some 0))
    (s.releases.map fun r => (r.versionKey, r.state)) = [(("weather", "1.0.0"), .published)]
      ∧ (s.versions.map fun v => (v.key, v.status)) = [(("weather", "1.0.0"), .draft)] := by
  decide +kernel

/-- Published by the transition, the release has a published version. -/
theorem release_lifecycle_published :
    let s := empty.run (createdAs .verified none
      ++ [.transitionRelease "r1" .published none Time.second])
    (s.releases.map fun r => r.state) = [.published]
      ∧ ∀ r ∈ s.releases, ∃ v ∈ s.versions, v.key = r.versionKey
        ∧ (r.state = .published → v.status = .published)
        ∧ (r.state = .suspended ∨ r.state = .revoked → v.status = .disabled) := by
  refine ⟨by decide +kernel, ?_⟩
  obtain ⟨-, -, hcoupled, -⟩ := release_lifecycle (createdAs .verified none
    ++ [.transitionRelease "r1" .published none Time.second])
  refine hcoupled fun call hcall => ?_
  simp only [createdAs, List.cons_append, List.nil_append, List.mem_cons, List.not_mem_nil,
    or_false] at hcall
  rcases hcall with rfl | rfl | rfl | rfl
  all_goals simp [Call.startsUnpublished]

end Catalog

end Nekiro
