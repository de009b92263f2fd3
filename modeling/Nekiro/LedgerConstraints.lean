import Nekiro.LedgerSound

/-!
# The contract against the constraints

The event contract and the table constraints are two descriptions of the
same data, written apart. This module compares them: for an event that
passes every check of `Append` in a reachable ledger, the rows to be
written satisfy all column types and CHECKs exactly when the Agent Card
version fits its column and the error code is one the tables list
(`rowsAdmitted_iff`). The contract bounds neither: a version may be
arbitrarily long, and Platform Error v4 has three release codes the
migrations do not know.
-/

namespace Nekiro

namespace Ledger

open Guard LedgerTables RuntimeInvocationSequenceValidator

/-! ## Column types -/

theorem varchar_of_safeIdentifier {s : String} (h : safeIdentifier s) : varchar 128 s := h.2.1

theorem nullableText_mem {value s : String} (h : s ∈ nullableText value) :
    value ≠ "" ∧ s = value := by
  unfold nullableText at h
  split_ifs at h with hv
  · exact absurd h (Option.not_mem_none s)
  · exact ⟨hv, (Option.some.inj h).symm⟩

/-- A time between the years -1 and 10000 is far inside the range of a
timestamp. -/
theorem timestamptz_of_days {t : Int} (h1 : -367 ≤ t / 1000000000 / 86400)
    (h2 : t / 1000000000 / 86400 ≤ 3652059) : timestamptz t := by
  have hmin : Civil.toDays ⟨-4712, 1, 1⟩ * 86400 * Time.second = -148727923200000000000 := by
    decide
  have hmax : Civil.toDays ⟨294277, 1, 1⟩ * 86400 * Time.second = 9286453612800000000000 := by
    decide
  have hlo : (-148727923200000000000 : Int) ≤ t := by omega
  have hhi : t < (9286453612800000000000 : Int) := by omega
  exact ⟨hmin.le.trans hlo, hhi.trans_eq hmax.symm⟩

variable {e : InvocationEventV03} {code : PlatformErrorCode}

theorem text_length_le_of_form (h : e.Form) :
    varchar 16 e.type.text ∧ varchar 16 e.status.text := by
  cases h with
  | progress htype =>
      rcases htype with ⟨h1, h2⟩ | ⟨h1, h2⟩ | ⟨h1, h2⟩ <;> rw [h1, h2] <;> decide
  | stream _ _ h1 h2 => rw [h1, h2]; decide
  | success _ h1 h2 => rw [h1, h2]; decide
  | failure _ _ htype =>
      rcases htype with ⟨h1, h2, -⟩ | ⟨h1, h2, -⟩ | ⟨h1, h2, -⟩ <;> rw [h1, h2] <;> decide

theorem status_mem_of_form (h : e.Form) : e.status ∈
    [.pending, .routing, .running, .succeeded, .failed, .canceled, .timedOut] := by
  cases h with
  | progress htype => rcases htype with ⟨-, h2⟩ | ⟨-, h2⟩ | ⟨-, h2⟩ <;> simp [h2]
  | stream _ _ _ h2 => simp [h2]
  | success _ _ h2 => simp [h2]
  | failure _ _ htype => rcases htype with ⟨-, h2, -⟩ | ⟨-, h2, -⟩ | ⟨-, h2, -⟩ <;> simp [h2]

theorem varchar_of_listed (h : (platformErrorV4Messages code).isSome) : varchar 64 code.text := by
  cases code with
  | other text => simp [platformErrorV4Messages] at h
  | _ => decide

/-- The error codes of the contract that the tables do not list. -/
def releaseCodes : List PlatformErrorCode :=
  [.agentReleaseUnpublished, .agentReleaseSuspended, .agentReleaseRevoked]

theorem mem_errorCodes_iff (h : (platformErrorV4Messages code).isSome = true) :
    code ∈ errorCodes ↔ code ∉ releaseCodes := by
  cases code with
  | other text => simp [platformErrorV4Messages] at h
  | _ => decide

section Constraints

variable [Semver]

/-- The context fits its columns, but for the version. -/
theorem StampedEvent.columns_types_iff (e : StampedEvent) :
    e.columns.Types ↔ e.event.agentCardVersion.length ≤ 128 := by
  have hs := e.schema.context
  refine ⟨fun h => h.agentCardVersion, fun hversion => ⟨?_, ?_, ?_, ?_, ?_, ?_, ?_, ?_, hversion,
    ?_, ?_⟩⟩
  · exact varchar_of_safeIdentifier hs.invocationID
  · exact varchar_of_safeIdentifier hs.rootTaskID
  · intro s hmem
    obtain ⟨hne, rfl⟩ := nullableText_mem hmem
    exact varchar_of_safeIdentifier (hs.parentInvocationID.resolve_left hne)
  · exact varchar_of_safeIdentifier hs.traceID
  · have hknown := hs.callerType
    have hcols : e.columns.callerType = e.event.caller.type := rfl
    rw [hcols]
    cases htype : e.event.caller.type with
    | other text => simp [htype, CallerType.known] at hknown
    | user => decide
    | agent => decide
    | service => decide
  · exact varchar_of_safeIdentifier hs.callerID
  · exact varchar_of_safeIdentifier hs.workspaceID
  · exact varchar_of_safeIdentifier hs.targetAgentID
  · intro s hmem
    obtain ⟨hne, rfl⟩ := nullableText_mem hmem
    exact varchar_of_safeIdentifier (hs.agentReleaseID.resolve_left hne)
  · exact varchar_of_safeIdentifier hs.capability

/-- A parsed time is far inside the range of a timestamp. -/
theorem StampedEvent.timestamptz_instant (e : StampedEvent) : timestamptz e.instant := by
  obtain ⟨d, hvalid, h0, h9, hlo, hhi⟩ := Rfc3339.parse_day e.stamp
  have hb := Civil.toDays_bounds hvalid
  have hlow := Civil.daysBeforeYear_mono h0
  have hhigh := Civil.daysBeforeYear_mono (y := d.year + 1) (z := 10000) (by omega)
  have h1 : Civil.daysBeforeYear 0 = -366 := by decide
  have h2 : Civil.daysBeforeYear 10000 = 3652059 := by decide
  refine timestamptz_of_days (le_trans ?_ hlo) (le_trans hhi ?_)
  · omega
  · omega

theorem StampedEvent.codes_listed (e : StampedEvent) :
    ∀ code ∈ e.event.error.map (·.code), (platformErrorV4Messages code).isSome = true := by
  intro code hcode
  obtain ⟨err, herr, rfl⟩ := Option.mem_map.mp hcode
  simp [(e.schema.error err herr).message]

theorem StampedEvent.row_types_iff (e : StampedEvent) :
    e.row.Types ↔ e.event.agentCardVersion.length ≤ 128 := by
  refine ⟨fun h => e.columns_types_iff.mp h.context, fun h => ?_⟩
  obtain ⟨htype, hstatus⟩ := text_length_le_of_form e.form
  exact ⟨e.columns_types_iff.mpr h, varchar_of_safeIdentifier e.schema.eventID,
    e.timestamptz_instant, htype, hstatus,
    fun code hcode => varchar_of_listed (e.codes_listed code hcode)⟩

/-! ## CHECK constraints -/

/-- The CHECKs on the context say what the contract says. -/
theorem StampedEvent.columns_checks (e : StampedEvent) : e.columns.Checks := by
  have hs := e.schema.context
  obtain ⟨-, hpair, hdigest⟩ := e.digest_spec
  refine ⟨safeIdentifier_iff.mp hs.invocationID, safeIdentifier_iff.mp hs.rootTaskID, ?_,
    safeIdentifier_iff.mp hs.callerID, safeIdentifier_iff.mp hs.workspaceID,
    safeIdentifier_iff.mp hs.targetAgentID, safeIdentifier_iff.mp hs.capability,
    safeIdentifier_iff.mp hs.traceID, ?_, ?_, hdigest, hpair⟩
  · intro s hmem
    obtain ⟨hne, rfl⟩ := nullableText_mem hmem
    exact safeIdentifier_iff.mp (hs.parentInvocationID.resolve_left hne)
  · have hknown := hs.callerType
    have hcols : e.columns.callerType = e.event.caller.type := rfl
    rw [hcols]
    cases htype : e.event.caller.type with
    | other text => simp [htype, CallerType.known] at hknown
    | _ => simp
  · intro s hmem
    obtain ⟨hne, rfl⟩ := nullableText_mem hmem
    exact safeIdentifier_iff.mp (hs.agentReleaseID.resolve_left hne)

/-- The shape rules of the schema are the three shape CHECKs. -/
theorem StampedEvent.row_shape (e : StampedEvent) :
    e.row.typeStatus ∧ e.row.fieldShape ∧ e.row.terminalError := by
  simp only [EventRow.typeStatus, EventRow.fieldShape, EventRow.terminalError, row]
  cases e.form with
  | progress htype hindex hbytes hlatency herror =>
      rcases htype with ⟨h1, h2⟩ | ⟨h1, h2⟩ | ⟨h1, h2⟩ <;>
        simp [h1, h2, hindex, hbytes, hlatency, herror]
  | stream index bytes h1 h2 hindex hbytes hlatency herror =>
      simp [h1, h2, hindex, hbytes, hlatency, herror]
  | success latency h1 h2 hindex hbytes hlatency herror =>
      simp [h1, h2, hindex, hbytes, hlatency, herror, EventType.text, InvocationStatus.text]
  | failure latency err htype hindex hbytes hlatency herror =>
      rcases htype with ⟨h1, h2, -⟩ | ⟨h1, h2, h3⟩ | ⟨h1, h2, h3⟩ <;>
        simp [*, EventType.text, InvocationStatus.text]

theorem StampedEvent.row_checks_iff (e : StampedEvent) :
    e.row.Checks ↔ ∀ err ∈ e.event.error, err.code ∉ releaseCodes := by
  have hs := e.schema
  constructor
  · intro h err herr
    have hmem : err.code ∈ e.event.error.map (·.code) := Option.mem_map_of_mem _ herr
    exact (mem_errorCodes_iff (e.codes_listed _ hmem)).mp (h.errorCode _ hmem)
  · intro h
    obtain ⟨h1, h2, h3⟩ := e.row_shape
    refine ⟨hs.sequence, e.columns_checks, safeIdentifier_iff.mp hs.eventID, hs.chunkIndex,
      hs.chunkBytes, hs.latencyMS, h1, h2, h3, fun code hcode => ?_⟩
    obtain ⟨err, herr, rfl⟩ := Option.mem_map.mp hcode
    exact (mem_errorCodes_iff (e.codes_listed _ hcode)).mpr (h err herr)

/-! ## The rows of one `Append` -/

/-- The rows `Append` writes satisfy every column type and CHECK. -/
def RowsAdmitted (s : Ledger) (e : InvocationEventV03) (occurredAt : Time) : Prop :=
  (∃ r, eventRow e occurredAt = some r ∧ r.Types ∧ r.Checks)
    ∧ (e.sequence = 0 → ∃ p, invocationRow e occurredAt = some p ∧ p.Types ∧ p.Checks)
    ∧ (e.sequence ≠ 0 → ∀ p ∈ s.invocations, p.invocationID = e.invocationID →
      (updatedRow p e occurredAt).Types ∧ (updatedRow p e occurredAt).Checks)

/-- The version fits its column and the error code is listed. -/
def FitsTables (e : InvocationEventV03) : Prop :=
  e.agentCardVersion.length ≤ 128 ∧ ∀ err ∈ e.error, err.code ∉ releaseCodes

theorem startRow_admitted (e : StampedEvent) (hstatus : e.event.status = .pending)
    (hfits : FitsTables e.event) : e.startRow.Types ∧ e.startRow.Checks := by
  refine ⟨⟨e.columns_types_iff.mpr hfits.1, (text_length_le_of_form e.form).2, nofun,
    e.timestamptz_instant, e.timestamptz_instant⟩, e.columns_checks, status_mem_of_form e.form,
    nofun, nofun, le_refl _, ?_⟩
  exact .inl ⟨by simp [StampedEvent.startRow, hstatus], rfl, rfl⟩

/-- The projection's shape CHECK follows from the shape of the event. -/
theorem updatedRow_terminalShape (p : InvocationRow) (e : StampedEvent) :
    (updatedRow p e.event e.instant).terminalShape := by
  simp only [InvocationRow.terminalShape, updatedRow]
  cases e.form with
  | progress htype hindex hbytes hlatency herror =>
      rcases htype with ⟨-, h2⟩ | ⟨-, h2⟩ | ⟨-, h2⟩ <;> simp [h2, hlatency, herror]
  | stream index bytes h1 h2 hindex hbytes hlatency herror => simp [h2, hlatency, herror]
  | success latency h1 h2 hindex hbytes hlatency herror => simp [h2, hlatency, herror]
  | failure latency err htype hindex hbytes hlatency herror =>
      rcases htype with ⟨-, h2, -⟩ | ⟨-, h2, -⟩ | ⟨-, h2, -⟩ <;> simp [h2, hlatency, herror]

theorem updatedRow_admitted (hist : History) (e : StampedEvent)
    (hctx : e.columns = hist.first.columns) (hle : hist.last.instant ≤ e.instant)
    (hfits : FitsTables e.event) :
    (updatedRow hist.projection e.event e.instant).Types
      ∧ (updatedRow hist.projection e.event e.instant).Checks := by
  have hcols : (updatedRow hist.projection e.event e.instant).toContextColumns = e.columns :=
    hctx.symm
  have horder : hist.first.instant ≤ e.instant := le_trans (hist.le_last _ hist.first_mem) hle
  refine ⟨⟨?_, (text_length_le_of_form e.form).2,
      fun code hcode => varchar_of_listed (e.codes_listed code hcode),
      hist.first.timestamptz_instant, e.timestamptz_instant⟩,
    ?_, status_mem_of_form e.form, e.schema.latencyMS, ?_, horder, updatedRow_terminalShape _ e⟩
  · rw [hcols]
    exact e.columns_types_iff.mpr hfits.1
  · rw [hcols]
    exact e.columns_checks
  · exact (e.row_checks_iff.mpr hfits.2).errorCode

/-- The columns of an admitted event are those of its history. -/
theorem columns_eq_of_admits {hist : History} {e : StampedEvent}
    (hadm : (fresh.nextAll (hist.events.map StampedEvent.canonical)).Admits e.event)
    (hle : hist.last.instant ≤ e.instant) : e.columns = hist.first.columns := by
  have hfirst : (hist.extend e hadm hle).first = hist.first := by
    simp [History.first, History.extend, List.head_append_of_ne_nil hist.nonempty]
  rw [← hfirst]
  exact (hist.extend e hadm hle).columns_eq e (by simp [History.extend])

theorem rowsAdmitted_of_checks_iff {s : Ledger} (hs : s.Tracked) {event : InvocationEventV03}
    {t : Time} (hchecks : s.checks event = .ok t) :
    RowsAdmitted s event t ↔ FitsTables event := by
  obtain ⟨e, rfl, rfl, hcases⟩ := checks_ok hs hchecks
  constructor
  · rintro ⟨⟨r, hr, htypes, hrchecks⟩, -⟩
    rw [e.eventRow_eq, Option.some.injEq] at hr
    subst hr
    exact ⟨e.row_types_iff.mp htypes, e.row_checks_iff.mp hrchecks⟩
  · intro hfits
    refine ⟨⟨e.row, e.eventRow_eq, e.row_types_iff.mpr hfits.1, e.row_checks_iff.mpr hfits.2⟩,
      ?_, ?_⟩
    · intro hseq
      rcases hcases with ⟨-, hadm, -⟩ | ⟨hne, -⟩
      · exact ⟨_, e.invocationRow_eq, startRow_admitted e (hadm.start rfl).2 hfits⟩
      · exact absurd hseq hne
    · intro hseq p hp hid
      rcases hcases with ⟨h0, -⟩ | ⟨-, hist, hmem, hhid, hrows, hadm, hle⟩
      · exact absurd h0 hseq
      · rw [hs.unique hp hmem (hid.trans hhid.symm)]
        exact updatedRow_admitted hist e (columns_eq_of_admits hadm hle) hle hfits

/-! ## The outcome of `Append` -/

/-- An event that fits starts an invocation unless the ID is taken. -/
theorem writes_created {s : Ledger} (hs : s.Tracked) {e : StampedEvent}
    (hseq : e.event.sequence = 0) (hadm : fresh.Admits e.event)
    (hparent : e.event.parentInvocationID ≠ "" → s.RunningParent e)
    (hfits : FitsTables e.event) (hfresh : ∀ r ∈ s.events, r.eventID ≠ e.event.eventID) :
    (∃ s', s.writes e.event e.instant = .ok s')
      ∨ ((∃ p ∈ s.invocations, p.invocationID = e.event.invocationID)
        ∧ s.writes e.event e.instant = .error .conflict) := by
  obtain ⟨htypes, hchecks⟩ := startRow_admitted e (hadm.start rfl).2 hfits
  unfold writes
  rw [if_pos hseq]
  by_cases hnew : ∀ r ∈ s.invocations, r.invocationID ≠ e.event.invocationID
  · have hproj := insertProjection_ok_iff.mpr ⟨htypes, hchecks, hnew, fun parent hmem => by
      obtain ⟨hne, rfl⟩ := nullableText_mem hmem
      obtain ⟨p, hp, hchild, -⟩ := hparent hne
      refine ⟨p, List.mem_append_left _ hp, ?_⟩
      exact (Option.some.inj ((if_neg hne).symm.trans hchild.parentInvocationID)).symm, rfl⟩
    rw [hproj, ok_bind]
    refine .inl ⟨_, insertEvent_ok_iff.mpr ⟨e.row_types_iff.mpr hfits.1,
      e.row_checks_iff.mpr hfits.2, hfresh, ?_,
      ⟨e.startRow, List.mem_append_right _ (List.mem_singleton_self _), rfl⟩, rfl⟩⟩
    rintro r hr ⟨hrid, -⟩
    obtain ⟨p, hp, hpr⟩ := hs.owned r hr
    exact hnew p hp (hpr.trans hrid)
  · refine .inr ⟨by simpa using hnew, ?_⟩
    unfold insertProjection
    have hrow : orDependency "insert Invocation projection" (invocationRow e.event e.instant)
        = .ok e.startRow := by
      rw [e.invocationRow_eq]
      rfl
    have hconflict : require (∀ r ∈ s.invocations, r.invocationID ≠ e.startRow.invocationID)
        LedgerError.conflict = .error .conflict := require_of_not hnew
    simp only [hrow, ok_bind, require_ok_iff.mpr htypes, require_ok_iff.mpr hchecks, hconflict,
      error_bind]

/-- An event that fits always continues its invocation. -/
theorem writes_continued {s : Ledger} (hs : s.Tracked) {e : StampedEvent}
    (hseq : e.event.sequence ≠ 0) {hist : History} (hmem : hist.projection ∈ s.invocations)
    (hid : hist.projection.invocationID = e.event.invocationID)
    (hrows : hist.rows = s.rowsOf e.event.invocationID)
    (hadm : (fresh.nextAll (hist.events.map StampedEvent.canonical)).Admits e.event)
    (hle : hist.last.instant ≤ e.instant)
    (hfits : FitsTables e.event) (hfresh : ∀ r ∈ s.events, r.eventID ≠ e.event.eventID) :
    ∃ s', s.writes e.event e.instant = .ok s' := by
  have hrow : ∀ p ∈ s.invocations, p.invocationID = e.event.invocationID →
      (updatedRow p e.event e.instant).Types ∧ (updatedRow p e.event e.instant).Checks := by
    intro p hp hpid
    rw [hs.unique hp hmem (hpid.trans hid.symm)]
    exact updatedRow_admitted hist e (columns_eq_of_admits hadm hle) hle hfits
  have hnext : ∀ r ∈ s.events,
      ¬(r.invocationID = e.event.invocationID ∧ r.sequence = e.event.sequence) := by
    rintro r hr ⟨hrid, hrseq⟩
    have hr' : r ∈ hist.rows := by
      rw [hrows]
      exact List.mem_filter.mpr ⟨hr, decide_eq_true hrid⟩
    obtain ⟨e', he', rfl⟩ := List.mem_map.mp hr'
    -- the stored sequences are below the number of stored events
    have hlt : e'.event.sequence ∈ hist.events.map (·.event.sequence) :=
      List.mem_map_of_mem he'
    rw [hist.sequences] at hlt
    obtain ⟨i, hi, hi'⟩ := List.mem_map.mp hlt
    have hseq' := hadm.sequence
    rw [nextAll_nextSequence, List.length_map] at hseq'
    have hzero : fresh.nextSequence = 0 := rfl
    have hrseq' : e'.event.sequence = e.event.sequence := hrseq
    have := List.mem_range.mp hi
    omega
  have hone : (s.invocations.filter fun r => r.invocationID = e.event.invocationID).length = 1 := by
    have hcount : (s.invocations.map (·.invocationID)).count e.event.invocationID = 1 :=
      List.count_eq_one_of_mem hs.ids (List.mem_map.mpr ⟨_, hmem, hid⟩)
    rw [List.count, List.countP_map, List.countP_eq_length_filter] at hcount
    exact hcount
  unfold writes
  rw [if_neg hseq]
  have hevent := insertEvent_ok_iff.mpr ⟨e.row_types_iff.mpr hfits.1,
    e.row_checks_iff.mpr hfits.2, hfresh, hnext, ⟨_, hmem, hid⟩, rfl⟩
  rw [hevent, ok_bind]
  exact ⟨_, updateProjection_ok_iff.mpr ⟨fun p hp hpid => (hrow p hp hpid).1,
    fun p hp hpid => (hrow p hp hpid).2, hone, rfl⟩⟩

/-- **The contract against the tables.** For an event with a fresh ID
that passes the checks of `Append` in a reachable ledger, the rows
satisfy every column type and CHECK exactly when the version has at most
128 characters and the error code is not one of the release codes; the
database then refuses the event only when its invocation ID is taken. -/
theorem rowsAdmitted_iff {calls : List InvocationEventV03} {event : InvocationEventV03} {t : Time}
    (hchecks : (appendAll calls).checks event = .ok t)
    (hfresh : ∀ r ∈ (appendAll calls).events, r.eventID ≠ event.eventID) :
    (RowsAdmitted (appendAll calls) event t ↔ FitsTables event)
      ∧ (FitsTables event → (∃ s', (appendAll calls).append event = .ok s')
        ∨ (event.sequence = 0
          ∧ (∃ p ∈ (appendAll calls).invocations, p.invocationID = event.invocationID)
          ∧ (appendAll calls).append event = .error .conflict)) := by
  have hs := appendAll_tracked calls
  refine ⟨rowsAdmitted_of_checks_iff hs hchecks, fun hfits => ?_⟩
  unfold append
  rw [hchecks, ok_bind]
  obtain ⟨e, rfl, rfl, ⟨hseq, hadm, hparent⟩ | ⟨hseq, hist, hmem, hid, hrows, hadm, hle⟩⟩ :=
    checks_ok hs hchecks
  · rcases writes_created hs hseq hadm hparent hfits hfresh with h | h
    · exact .inl h
    · exact .inr ⟨hseq, h⟩
  · exact .inl (writes_continued hs hseq hmem hid hrows hadm hle hfits hfresh)

end Constraints

/-- The events of an invocation that is being routed. -/
def routedEvents : List InvocationEventV03 :=
  [{ offsetEvent with occurredAt := "2026-01-01T00:00:00Z" },
    { offsetEvent with
      eventID := "event-2", sequence := 1, occurredAt := "2026-01-01T00:00:01Z"
      type := .routing, status := .routing }]

/-- Its failure. -/
def failedEvent (code : PlatformErrorCode) (message : String) : InvocationEventV03 :=
  { offsetEvent with
    eventID := "event-3", sequence := 2, occurredAt := "2026-01-01T00:00:02Z"
    type := .failed, status := .failed, latencyMS := some 2000
    error := some ⟨code, message, "trace-1", "inv-1", "task-1"⟩ }

def unavailableEvent : InvocationEventV03 :=
  failedEvent .agentUnavailable "The Agent is unavailable."

theorem rowsAdmitted_unavailableEvent :
    letI := Semver.only ["1.0.0"]
    ∃ t, (appendAll routedEvents).checks unavailableEvent = .ok t
      ∧ (RowsAdmitted (appendAll routedEvents) unavailableEvent t ↔ FitsTables unavailableEvent)
      ∧ FitsTables unavailableEvent := by
  let _ := Semver.only ["1.0.0"]
  have hchecks : (appendAll routedEvents).checks unavailableEvent = .ok 63902822402000000000 := by
    decide +kernel
  have hfresh : ∀ r ∈ (appendAll routedEvents).events, r.eventID ≠ unavailableEvent.eventID := by
    decide +kernel
  exact ⟨_, hchecks, (rowsAdmitted_iff hchecks hfresh).1, by decide, by decide⟩

/-- A version of 129 characters. -/
def longVersion : String := "1.0.0-" ++ String.ofList (List.replicate 123 'a')

def revokedEvent : InvocationEventV03 :=
  failedEvent .agentReleaseRevoked "The Agent release is revoked."

theorem not_rowsAdmitted {s : Ledger} {t : Time}
    (h : ((eventRow e t).any fun r => decide (r.Types ∧ r.Checks)) = false) :
    ¬RowsAdmitted s e t := by
  rintro ⟨⟨r, hr, htypes, hchecks⟩, -⟩
  rw [hr, Option.any_some, decide_eq_false_iff_not] at h
  exact h ⟨htypes, hchecks⟩

/-- Two events that pass every check of `Append` in a reachable ledger,
under a fresh ID, and that the database refuses. -/
theorem contract_exceeds_tables :
    letI := Semver.only ["1.0.0", longVersion]
    (∃ t, (appendAll []).checks { offsetEvent with agentCardVersion := longVersion } = .ok t
        ∧ ¬RowsAdmitted (appendAll []) { offsetEvent with agentCardVersion := longVersion } t)
      ∧ ∃ t, (appendAll routedEvents).checks revokedEvent = .ok t
        ∧ (∀ r ∈ (appendAll routedEvents).events, r.eventID ≠ revokedEvent.eventID)
        ∧ ¬RowsAdmitted (appendAll routedEvents) revokedEvent t := by
  let _ := Semver.only ["1.0.0", longVersion]
  refine ⟨⟨-31626000000000000, by decide +kernel, not_rowsAdmitted (by decide +kernel)⟩,
    ⟨63902822402000000000, by decide +kernel, by decide +kernel,
      not_rowsAdmitted (by decide +kernel)⟩⟩

end Ledger

end Nekiro
