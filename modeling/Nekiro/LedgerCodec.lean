import Nekiro.LedgerReads

/-!
# Reading back what was stored

`insertEvent` writes an event as a row and `scanEvent` makes an event of a
row. What comes back is the event itself (`stored_eq`) with its time in UTC
and the message of its error code; an accepted event has that message
already, so only the spelling of the time can differ.

The next `Append` to the invocation validates what is read back
(`checkHistory`). Whether that succeeds depends on the times alone: each
has to be spelled in UTC, and those of the projection may not be the zero
time. `history_codec_iff` has the condition.
-/

namespace Nekiro

/-- The message that belongs to the code. -/
def CorrelatedPlatformErrorV4.withFixedMessage (err : CorrelatedPlatformErrorV4) :
    CorrelatedPlatformErrorV4 :=
  { err with message := (platformErrorV4Messages err.code).getD "" }

namespace Ledger

open Guard LedgerTables RuntimeInvocationSequenceValidator

/-- The event with its time in UTC and the fixed message of its error. -/
def readBack (e : InvocationEventV03) (instant : Time) : InvocationEventV03 :=
  { e with
    occurredAt := Rfc3339.format instant
    error := e.error.map CorrelatedPlatformErrorV4.withFixedMessage }

/-- The event that `scanEvent` makes of the row `insertEvent` writes. -/
def stored (e : InvocationEventV03) (instant : Time) : Option InvocationEventV03 :=
  (eventRow e instant).bind scanEvent

section Codec

variable [Semver]

theorem StampedEvent.readBack_eq (e : StampedEvent) : readBack e.event e.instant = e.canonical := by
  have herror : e.event.error.map CorrelatedPlatformErrorV4.withFixedMessage = e.event.error := by
    cases herr : e.event.error with
    | none => rfl
    | some err =>
        have hmessage := (e.schema.error err herr).message
        simp only [Option.map_some, CorrelatedPlatformErrorV4.withFixedMessage, hmessage,
          Option.getD_some]
  rw [readBack, herror]
  rfl

theorem StampedEvent.stored_eq (e : StampedEvent) :
    stored e.event e.instant = some (readBack e.event e.instant) := by
  rw [stored, e.eventRow_eq, Option.bind_some, e.scanEvent_row, e.readBack_eq]

/-! ## The next call -/

variable {s : Ledger} {h : History} {e : InvocationEventV03} {t : Time}

theorem Tracked.lockProjection_eq (hs : s.Tracked) (hmem : h.projection ∈ s.invocations)
    {id : String}
    (hid : id = h.projection.invocationID) (operation : String) (missing : LedgerError) :
    s.lockProjection id operation missing = .ok h.record := by
  have hfind : s.findProjection id = some h.projection := by
    cases hfound : s.findProjection id with
    | none => simpa [hid] using List.find?_eq_none.mp hfound h.projection hmem
    | some q =>
        obtain ⟨hq, hqid⟩ := mem_of_findProjection hfound
        rw [hs.unique hq hmem (hqid.trans hid)]
  simp only [lockProjection, hfind, h.scanProjection_projection, orDependency]

theorem History.checkProjectionState_ok (hreadable : h.Readable) :
    checkProjectionState h.record (h.events.map StampedEvent.canonical) = .ok () := by
  have hhead : (h.events.map StampedEvent.canonical).head? = some h.first.canonical := by
    rw [List.head?_map, List.head?_eq_some_head h.nonempty]
    rfl
  have hlast : (h.events.map StampedEvent.canonical).getLast? = some h.last.canonical := by
    rw [List.getLast?_map, List.getLast?_eq_some_getLast h.nonempty]
    rfl
  have hparse : ∀ st ∈ h.events, Rfc3339.parse st.canonical.occurredAt = some st.instant :=
    fun st hst => Rfc3339.parse_format (hreadable.1 st hst).1 (hreadable.1 st hst).2
  simp only [checkProjectionState, hhead, hlast]
  exact require_ok_iff.mpr ⟨hparse _ h.last_mem, hparse _ h.first_mem, rfl, rfl⟩

theorem History.acceptAll_ok (hreadable : h.Readable) :
    fresh.acceptAll (h.events.map StampedEvent.canonical) =
      .ok (fresh.nextAll (h.events.map StampedEvent.canonical)) := by
  refine acceptAll_ok_iff.mpr ⟨List.forall_mem_map.mpr fun st hst => ?_, h.admitted, rfl⟩
  exact st.canonical_valid_iff.mpr (hreadable.1 st hst)

/-- The stored history passes where its times can be told, and it is the
detail that fails where they cannot. -/
theorem Tracked.checkHistory_cases (hs : s.Tracked) (hmem : h.projection ∈ s.invocations)
    (hrows : h.rows = s.rowsOf h.projection.invocationID)
    (hid : e.invocationID = h.projection.invocationID) (hle : h.record.updatedAt ≤ t) :
    (h.Readable → ∀ operation, s.checkHistory e t ≠ .error (.dependency operation))
      ∧ (¬h.Readable →
        s.checkHistory e t = .error (.dependency "validate committed projection")) := by
  have hcheck : s.checkHistory e t = (do
      orFail (.dependency "validate committed projection")
        (validateInvocationDetailResponseV1 h.context.workspaceID h.detail)
      checkProjectionState h.record (h.events.map StampedEvent.canonical)
      let sequence ← orFail (.dependency "validate committed lifecycle")
        (fresh.acceptAll (h.events.map StampedEvent.canonical))
      let _ ← orFail (.validation (some "lifecycle transition")) (sequence.accept e)
      pure ()) := by
    rw [checkHistory, hs.lockProjection_eq hmem hid, ok_bind, require_ok_iff.mpr hle, ok_bind,
      hs.readEvents_eq (hid ▸ hrows), orDependency, ok_bind]
    rfl
  rw [hcheck]
  have hdetail := h.detail_valid_iff
  constructor
  · intro hreadable operation
    rw [hdetail.mpr hreadable, h.checkProjectionState_ok hreadable, h.acceptAll_ok hreadable]
    simp only [orFail, ok_bind]
    cases (fresh.nextAll (h.events.map StampedEvent.canonical)).accept e with
    | error err => exact fun herror => by cases herror
    | ok v => exact fun herror => by cases herror
  · intro hunreadable
    cases hresult : validateInvocationDetailResponseV1 h.context.workspaceID h.detail with
    | error err => rfl
    | ok u => exact absurd (hdetail.mp hresult) hunreadable

/-- **The codec of the ledger.** Every accepted event is read back as it
was, its time in UTC. In a ledger that `Append` calls reach, the stored
history of an invocation is accepted again by the next call exactly when
RFC 3339 can spell the UTC year of each of its events and neither time of
the projection is zero. -/
theorem history_codec_iff (calls : List InvocationEventV03) :
    (∀ e t, validateCandidate e = .ok t →
      stored e t = some (readBack e t) ∧ Rfc3339.parse e.occurredAt = some t
        ∧ (validateInvocationEventV03 (readBack e t) = .ok () ↔ 0 ≤ t.utcYear ∧ t.utcYear ≤ 9999))
      ∧ ∀ p ∈ (appendAll calls).invocations, ∀ e t, e.invocationID = p.invocationID →
        p.updatedAt ≤ t →
        ((∀ operation, (appendAll calls).checkHistory e t ≠ .error (.dependency operation)) ↔
          (∀ r ∈ (appendAll calls).rowsOf p.invocationID,
            0 ≤ r.occurredAt.utcYear ∧ r.occurredAt.utcYear ≤ 9999)
          ∧ p.createdAt ≠ 0 ∧ p.updatedAt ≠ 0) := by
  constructor
  · intro e t hcandidate
    obtain ⟨st, rfl, rfl, -⟩ := validateCandidate_ok hcandidate
    refine ⟨st.stored_eq, st.stamp, ?_⟩
    rw [st.readBack_eq]
    exact st.canonical_valid_iff
  · intro p hp e t hid hle
    have hs := appendAll_tracked calls
    obtain ⟨h, rfl, hrows⟩ := hs.history p hp
    obtain ⟨hpasses, hfails⟩ := hs.checkHistory_cases hp hrows hid hle
    have hreadable : h.Readable ↔ (∀ r ∈ (appendAll calls).rowsOf h.projection.invocationID,
        0 ≤ r.occurredAt.utcYear ∧ r.occurredAt.utcYear ≤ 9999)
          ∧ h.projection.createdAt ≠ 0 ∧ h.projection.updatedAt ≠ 0 := by
      rw [← hrows, History.rows, List.forall_mem_map]
      rfl
    rw [← hreadable]
    refine ⟨fun hno => ?_, hpasses⟩
    by_contra hunreadable
    exact hno _ (hfails hunreadable)

end Codec

/-- The next event of an invocation with one event. -/
def nextEvent (e : InvocationEventV03) (occurredAt : String) : InvocationEventV03 :=
  { e with eventID := "event-2", sequence := 1, occurredAt, type := .routing, status := .routing }

/-- A history of one event in the year 2026, written with an offset, and
the call after it. -/
theorem history_codec_iff_offset :
    letI := Semver.only ["1.0.0"]
    let e := { offsetEvent with occurredAt := "2026-01-01T00:00:00+01:00" }
    let t : Time := 63902818800000000000
    validateCandidate e = .ok t ∧ stored e t = some { e with occurredAt := "2025-12-31T23:00:00Z" }
      ∧ ∀ operation, (appendAll [e]).checkHistory (nextEvent e "2026-01-01T00:00:00Z") (t + 1) ≠
        .error (.dependency operation) := by
  let _ := Semver.only ["1.0.0"]
  intro e t
  have hcandidate : validateCandidate e = .ok t := by decide +kernel
  obtain ⟨hevent, hhistory⟩ := history_codec_iff [e]
  refine ⟨hcandidate, (hevent e t hcandidate).1.trans (by decide +kernel), ?_⟩
  have hrows : ∃ p ∈ (appendAll [e]).invocations, e.invocationID = p.invocationID
      ∧ p.updatedAt ≤ t + 1 ∧ (∀ r ∈ (appendAll [e]).rowsOf p.invocationID,
        0 ≤ r.occurredAt.utcYear ∧ r.occurredAt.utcYear ≤ 9999)
      ∧ p.createdAt ≠ 0 ∧ p.updatedAt ≠ 0 := by
    decide +kernel
  obtain ⟨p, hp, hid, hle, htimes⟩ := hrows
  exact (hhistory p hp (nextEvent e "2026-01-01T00:00:00Z") (t + 1) hid hle).mpr htimes

/-- One hour before the year 0 in UTC: accepted, stored, and not accepted
again by the next call. So is the zero time, which is in the year 1. -/
theorem readBack_offsetEvent_invalid :
    letI := Semver.only ["1.0.0"]
    let t : Time := -31626000000000000
    (validateCandidate offsetEvent = .ok t
      ∧ (stored offsetEvent t).map (·.occurredAt) = some "-0001-12-31T23:00:00Z"
      ∧ validateInvocationEventV03 (readBack offsetEvent t) ≠ .ok ()
      ∧ (appendAll [offsetEvent]).invocations.length = 1
      ∧ (appendAll [offsetEvent]).checks (nextEvent offsetEvent "2026-01-01T00:00:00Z") =
        .error (.dependency "validate committed projection"))
      ∧ validateCandidate zeroTimeEvent = .ok 0
      ∧ validateInvocationEventV03 (readBack zeroTimeEvent 0) = .ok ()
      ∧ (appendAll [zeroTimeEvent]).invocations.length = 1
      ∧ (appendAll [zeroTimeEvent]).checks (nextEvent zeroTimeEvent "2026-01-01T00:00:00Z") =
        .error (.dependency "validate committed projection") := by
  refine ⟨⟨?_, ?_, ?_, ?_, ?_⟩, ?_, ?_, ?_, ?_⟩ <;> decide +kernel

end Ledger

end Nekiro
