import Nekiro.LedgerStore

/-!
# Histories

What the ledger is for, apart from its tables: each invocation has a
*history*, a list of valid events that the lifecycle automaton admits in
order, with non-decreasing instants. `History` carries these facts, so a
history that breaks one cannot be built; the two ways to build one are
`History.start` and `History.extend`.

A history determines rows and a projection (`rows`, `projection`), and
the codec lemmas say that the rows read back as the history's events
with their times in canonical spelling (`scanEvent_row`). That the
tables always hold the rows and projections of histories is the subject
of `LedgerInvariant`.
-/

namespace Nekiro

namespace Ledger

open Guard LedgerTables RuntimeInvocationSequenceValidator

/-! ## Projections as folds -/

/-- One event's effect on a projection. -/
def projectRow (p : InvocationRow) (r : EventRow) : InvocationRow :=
  { p with
    status := r.status
    latencyMS := r.latencyMS
    errorCode := r.errorCode
    updatedAt := r.occurredAt }

/-- The projection as the fold of the event rows. -/
def foldRows : List EventRow → Option InvocationRow
  | [] => none
  | r :: rs =>
      some (rs.foldl projectRow
        ⟨r.toContextColumns, r.status, r.latencyMS, r.errorCode, r.occurredAt, r.occurredAt⟩)

/-- Each event overwrites what the previous one set. -/
theorem foldl_projectRow (p : InvocationRow) (rs : List EventRow) (r : EventRow) :
    (rs ++ [r]).foldl projectRow p = projectRow p r := by
  rw [List.foldl_append]
  induction rs generalizing p with
  | nil => rfl
  | cons r' rs ih => exact ih (projectRow p r')

/-! ## The codec -/

theorem nullableText_getD (value : String) : (nullableText value).getD "" = value := by
  unfold nullableText
  split_ifs with h
  · exact h.symm
  · rfl

theorem nullableText_ne_none {value : String} (h : nullableText value ≠ none) : value ≠ "" :=
  fun hv => h (if_pos hv)

theorem scanContext_columnsWith {c : InvocationContext} {digest : Option (List UInt8)}
    (h : assignReleaseProvenance (nullableText c.agentReleaseID) digest
      = some (c.agentReleaseID, c.agentCardDigest)) :
    scanContext (columnsWith c digest) = some c := by
  simp [scanContext, columnsWith, h, nullableText_getD]

variable [Semver]

/-- The digest of a valid context is stored next to its release ID and
read back as the same text. -/
theorem digestBytes_of_schema {c : InvocationContext} (h : c.Schema) :
    ∃ digest, digestBytes c.agentCardDigest = some digest
      ∧ assignReleaseProvenance (nullableText c.agentReleaseID) digest
        = some (c.agentReleaseID, c.agentCardDigest)
      ∧ (nullableText c.agentReleaseID).isNone = digest.isNone
      ∧ ∀ bytes ∈ digest, bytes.length = 32 := by
  by_cases hr : c.agentReleaseID = ""
  · have hd := h.provenance.mp hr
    refine ⟨none, by rw [hd]; rfl, ?_, by rw [hr]; rfl, by simp⟩
    rw [hr, hd]
    rfl
  · have hd : c.agentCardDigest ≠ "" := fun hd => hr (h.provenance.mpr hd)
    obtain ⟨hlen, hall⟩ := isLower_of_cardDigestPattern (h.agentCardDigest.resolve_left hd)
    obtain ⟨bytes, hdec, hn, henc⟩ := Hex.decode_of_isLower (n := 32) hlen hall
    have hid : nullableText c.agentReleaseID = some c.agentReleaseID := if_neg hr
    refine ⟨some bytes, ?_, ?_, by rw [hid]; rfl, by simp [hn]⟩
    · simp [digestBytes, hd, hdec, hn]
    · cases bytes with
      | nil => simp at hn
      | cons b bs => simp [hid, assignReleaseProvenance, hn, henc]

/-! ## Stamped events -/

/-- A valid event and the instant its time denotes. -/
structure StampedEvent where
  event : InvocationEventV03
  instant : Time
  valid : validateInvocationEventV03 event = .ok ()
  stamp : Rfc3339.parse event.occurredAt = some instant

namespace StampedEvent

theorem schema (e : StampedEvent) : e.event.Schema :=
  (validateInvocationEventV03_ok_iff.mp e.valid).1

theorem correlated (e : StampedEvent) : e.event.Correlated :=
  (validateInvocationEventV03_ok_iff.mp e.valid).2

theorem form (e : StampedEvent) : e.event.Form :=
  InvocationEventV03.form_of_shape e.schema.shape

/-- The stored digest. -/
def digest (e : StampedEvent) : Option (List UInt8) :=
  (digestBytes e.event.agentCardDigest).get (by
    obtain ⟨digest, h, -⟩ := digestBytes_of_schema e.schema.context
    simp [h])

theorem digestBytes_eq (e : StampedEvent) :
    digestBytes e.event.agentCardDigest = some e.digest :=
  (Option.some_get _).symm

theorem digest_spec (e : StampedEvent) :
    assignReleaseProvenance (nullableText e.event.agentReleaseID) e.digest
        = some (e.event.agentReleaseID, e.event.agentCardDigest)
      ∧ (nullableText e.event.agentReleaseID).isNone = e.digest.isNone
      ∧ ∀ bytes ∈ e.digest, bytes.length = 32 := by
  obtain ⟨digest, h, hrest⟩ := digestBytes_of_schema e.schema.context
  rw [e.digestBytes_eq, Option.some.injEq] at h
  rw [h]
  exact hrest

def columns (e : StampedEvent) : ContextColumns :=
  columnsWith e.event.toInvocationContext e.digest

/-- The row of the event. -/
def row (e : StampedEvent) : EventRow :=
  ⟨e.columns, e.event.eventID, e.event.sequence, e.instant, e.event.type, e.event.status,
    e.event.chunkIndex, e.event.chunkBytes, e.event.latencyMS, e.event.error.map (·.code)⟩

theorem eventRow_eq (e : StampedEvent) : eventRow e.event e.instant = some e.row := by
  simp [eventRow, e.digestBytes_eq, row, columns]

/-- The event as it is read back. -/
def canonical (e : StampedEvent) : InvocationEventV03 :=
  { e.event with occurredAt := Rfc3339.format e.instant }

@[simp] theorem canonical_toInvocationContext (e : StampedEvent) :
    e.canonical.toInvocationContext = e.event.toInvocationContext := rfl

theorem scanContext_columns (e : StampedEvent) :
    scanContext e.columns = some e.event.toInvocationContext :=
  scanContext_columnsWith e.digest_spec.1

/-- The error is rebuilt from its code: its message is fixed by the code
and its correlation is the event's. -/
theorem scanError_columns (e : StampedEvent) :
    scanError e.columns (e.event.error.map (·.code)) = some e.event.error := by
  cases herr : e.event.error with
  | none => rfl
  | some err =>
      have hmem : err ∈ e.event.error := by simp [herr]
      obtain ⟨hinv, hroot, htrace⟩ := e.correlated err hmem
      have hnew : newCorrelatedPlatformErrorV4 err.code e.columns.traceID e.columns.invocationID
          e.columns.rootTaskID = .ok err :=
        newCorrelatedPlatformErrorV4_ok_iff.mpr ⟨e.schema.error err hmem, rfl, htrace, hinv, hroot⟩
      simp only [Option.map_some, scanError, hnew]

theorem scanEvent_row (e : StampedEvent) : scanEvent e.row = some e.canonical := by
  have hversion : e.event.schemaVersion = "0.3" := e.schema.schemaVersion
  simp only [scanEvent, row, e.scanError_columns, e.scanContext_columns, Option.bind_eq_bind,
    Option.bind_some, canonical, hversion]

/-- The stored event is valid again exactly when RFC 3339 can spell its
UTC year. -/
theorem canonical_valid_iff (e : StampedEvent) :
    validateInvocationEventV03 e.canonical = .ok () ↔
      0 ≤ e.instant.utcYear ∧ e.instant.utcYear ≤ 9999 := by
  rw [validateInvocationEventV03_ok_iff]
  constructor
  · intro h
    by_contra hyear
    have hdate : Rfc3339.dateTime (Rfc3339.format e.instant) = true := h.1.occurredAt
    rw [Rfc3339.dateTime_format_eq_false e.stamp hyear] at hdate
    exact Bool.false_ne_true hdate
  · intro hyear
    have hs := e.schema
    exact ⟨⟨hs.schemaVersion, hs.eventID, hs.sequence, Rfc3339.dateTime_format hyear.1 hyear.2,
      hs.context, hs.chunkIndex, hs.chunkBytes, hs.latencyMS, hs.error, hs.shape⟩, e.correlated⟩

theorem mapM_scanEvent_row (es : List StampedEvent) :
    (es.map row).mapM scanEvent = some (es.map canonical) := by
  induction es with
  | nil => rfl
  | cons e es ih => simp [List.mapM_cons, scanEvent_row, ih]

end StampedEvent

/-! ## Histories -/

structure History where
  events : List StampedEvent
  nonempty : events ≠ []
  admitted : fresh.AdmitsAll (events.map StampedEvent.canonical)
  ordered : events.Pairwise fun a b => a.instant ≤ b.instant

namespace History

def first (h : History) : StampedEvent := h.events.head h.nonempty

def last (h : History) : StampedEvent := h.events.getLast h.nonempty

def context (h : History) : InvocationContext := h.first.event.toInvocationContext

def rows (h : History) : List EventRow := h.events.map StampedEvent.row

/-- The projection of a history: the context and creation time of its
first event, everything else of its last. -/
def projection (h : History) : InvocationRow :=
  ⟨h.first.columns, h.last.event.status, h.last.event.latencyMS,
    h.last.event.error.map (·.code), h.first.instant, h.last.instant⟩

/-- The projection as it is read back. -/
def record (h : History) : InvocationRecordV1 :=
  ⟨h.context, h.last.event.status, h.last.event.latencyMS, h.last.event.error.map (·.code),
    h.first.instant, h.last.instant⟩

theorem scanProjection_projection (h : History) :
    scanProjection h.projection = some h.record := by
  simp only [scanProjection, projection, h.first.scanContext_columns, Option.bind_eq_bind,
    Option.bind_some, record, context]

theorem foldRows_rows (h : History) : foldRows h.rows = some h.projection := by
  obtain ⟨e, es, hes⟩ := List.exists_cons_of_ne_nil h.nonempty
  have hfirst : h.first = e := by simp [first, hes]
  rcases List.eq_nil_or_concat' es with rfl | ⟨es, e', rfl⟩
  · have hlast : h.last = e := by simp [last, hes]
    simp only [rows, hes, List.map_cons, List.map_nil, foldRows, List.foldl_nil, projection,
      hfirst, hlast]
    rfl
  · have hlast : h.last = e' := by simp [last, hes]
    simp only [rows, hes, List.map_cons, List.map_append, List.map_nil, foldRows,
      foldl_projectRow, projection, hfirst, hlast]
    rfl

/-- The history of a new invocation. -/
def start (e : StampedEvent) (hadm : fresh.Admits e.event) : History where
  events := [e]
  nonempty := List.cons_ne_nil _ _
  admitted := ⟨hadm.retime _, trivial⟩
  ordered := List.pairwise_singleton _ _

theorem le_last_of_pairwise {es : List StampedEvent} (hne : es ≠ [])
    (hord : es.Pairwise fun a b => a.instant ≤ b.instant) :
    ∀ e ∈ es, e.instant ≤ (es.getLast hne).instant := by
  rcases List.eq_nil_or_concat' es with rfl | ⟨es, e, rfl⟩
  · exact absurd rfl hne
  · intro e' he'
    rw [List.getLast_concat]
    rcases List.mem_append.mp he' with h | h
    · exact (List.pairwise_append.mp hord).2.2 e' h e (List.mem_singleton_self _)
    · rw [List.mem_singleton.mp h]

theorem le_last (h : History) : ∀ e ∈ h.events, e.instant ≤ h.last.instant :=
  le_last_of_pairwise h.nonempty h.ordered

/-- A history continued by an event the automaton admits next, not
earlier than the last. -/
def extend (h : History) (e : StampedEvent)
    (hadm : (fresh.nextAll (h.events.map StampedEvent.canonical)).Admits e.event)
    (hle : h.last.instant ≤ e.instant) : History where
  events := h.events ++ [e]
  nonempty := by simp
  admitted := by
    rw [List.map_append]
    exact admitsAll_concat.mpr ⟨h.admitted, hadm.retime _⟩
  ordered := by
    refine List.pairwise_append.mpr ⟨h.ordered, List.pairwise_singleton _ _, ?_⟩
    intro a ha b hb
    rw [List.mem_singleton.mp hb]
    exact le_trans (h.le_last a ha) hle

/-! ### What holds of every history -/

theorem first_mem (h : History) : h.first ∈ h.events := List.head_mem _

theorem last_mem (h : History) : h.last ∈ h.events := List.getLast_mem _

theorem context_eq (h : History) :
    ∀ e ∈ h.events, e.event.toInvocationContext = h.context := by
  intro e he
  obtain ⟨e0, es, hes⟩ := List.exists_cons_of_ne_nil h.nonempty
  have hfirst : h.first = e0 := by simp [first, hes]
  have hadm := h.admitted
  rw [hes, List.map_cons] at hadm
  rw [hes] at he
  rw [context, hfirst]
  rcases List.mem_cons.mp he with rfl | hmem
  · rfl
  · have hlast : (fresh.next e0.canonical).last = some e0.canonical := rfl
    have hctx := admitsAll_context hadm.2 hlast e.canonical (List.mem_map_of_mem hmem)
    rwa [StampedEvent.canonical_toInvocationContext, StampedEvent.canonical_toInvocationContext]
      at hctx

theorem columns_eq (h : History) : ∀ e ∈ h.events, e.columns = h.first.columns := by
  intro e he
  have hctx : e.event.toInvocationContext = h.first.event.toInvocationContext :=
    h.context_eq e he
  have hdig : e.event.agentCardDigest = h.first.event.agentCardDigest := by rw [hctx]
  have hd : e.digest = h.first.digest := by
    have h1 := e.digestBytes_eq
    have h2 := h.first.digestBytes_eq
    rw [hdig, h2] at h1
    exact (Option.some.inj h1).symm
  unfold StampedEvent.columns
  rw [hctx, hd]

theorem sequences (h : History) :
    h.events.map (·.event.sequence) = (List.range h.events.length).map fun i : Nat =>
      (i : Int) := by
  have hseq := admitsAll_sequence h.admitted
  have hzero : fresh.nextSequence = 0 := rfl
  simp only [List.map_map, List.length_map, hzero, Int.zero_add] at hseq
  exact hseq

theorem extend_projection (h : History) (e : StampedEvent)
    (hadm : (fresh.nextAll (h.events.map StampedEvent.canonical)).Admits e.event)
    (hle : h.last.instant ≤ e.instant) :
    (h.extend e hadm hle).projection = updatedRow h.projection e.event e.instant := by
  have hfirst : (h.extend e hadm hle).first = h.first := by
    simp [first, extend, List.head_append_of_ne_nil h.nonempty]
  have hlast : (h.extend e hadm hle).last = e := by simp [last, extend]
  simp only [projection, hfirst, hlast]
  rfl

theorem nextAll_last (h : History) :
    (fresh.nextAll (h.events.map StampedEvent.canonical)).last = some h.last.canonical := by
  rw [(nextAll_fresh_last _).1, List.getLast?_map, List.getLast?_eq_some_getLast h.nonempty]
  rfl

/-- No event continues a history that ended. -/
theorem not_admits_of_terminal (h : History)
    (hterm : isRuntimeTerminalStatus h.projection.status = true) (e : InvocationEventV03) :
    ¬(fresh.nextAll (h.events.map StampedEvent.canonical)).Admits e := by
  intro hadm
  have hsource : isRuntimeTerminalStatus h.projection.status = false :=
    not_terminal_of_transition (hadm.transition h.last.canonical h.nextAll_last)
  exact absurd hterm (by rw [hsource]; exact Bool.false_ne_true)

end History

end Ledger

end Nekiro
