import Nekiro.LedgerInvariant

/-!
# Runs of the ledger

From `Step` - what one committed `Append` does - to what holds after
every run: invocations keep their context, a finished invocation never
changes (`Step.frozen`), parents come before their children
(`Lineage`). `Sound` collects these into the statement the ledger is
meant to satisfy, and `sound_iff` says for which runs it does.
-/

namespace Nekiro

namespace Ledger

open Guard LedgerTables RuntimeInvocationSequenceValidator

section Runs

variable [Semver]

/-! ## Frames -/

variable {s s' : Ledger} {p : InvocationRow} {e : StampedEvent} {calls : List InvocationEventV03}

theorem Tracked.find_of_mem (hs : s.Tracked) (hp : p ∈ s.invocations) :
    s.findProjection p.invocationID = some p := by
  unfold findProjection
  cases hfind : s.invocations.find? fun r => r.invocationID = p.invocationID with
  | none =>
      have := List.find?_eq_none.mp hfind p hp
      simp at this
  | some q =>
      obtain ⟨hq, hqid⟩ := mem_of_findProjection (s := s) hfind
      rw [hs.unique hq hp hqid]

/-- A finished invocation is left as it is. -/
theorem Step.frozen (hs : s.Tracked) (h : Step s e s') (hp : p ∈ s.invocations)
    (hterm : isRuntimeTerminalStatus p.status = true) :
    p ∈ s'.invocations ∧ s'.rowsOf p.invocationID = s.rowsOf p.invocationID := by
  cases h with
  | created hadm hnew hparent =>
      refine ⟨List.mem_append_left _ hp, ?_⟩
      rw [rowsOf_concat, if_neg (hnew p hp).symm]
  | continued hist hmem hid hrows hadm hle =>
      have hpid : p.invocationID ≠ e.event.invocationID := by
        intro hpid
        rw [hs.unique hp hmem (hpid.trans hid.symm)] at hterm
        exact hist.not_admits_of_terminal hterm e.event hadm
      refine ⟨List.mem_map.mpr ⟨p, hp, if_neg hpid⟩, ?_⟩
      rw [rowsOf_concat, if_neg hpid.symm]

theorem Step.events (h : Step s e s') : s'.events = s.events ++ [e.row] := by
  cases h <;> rfl

/-! ## Lineage -/

/-- Every child stands behind its parent, which had started before the
child was created. -/
def Lineage (s : Ledger) : Prop :=
  ∀ older p newer, s.invocations = older ++ p :: newer → p.parentInvocationID ≠ none →
    ∃ q ∈ older, ChildOf p.toContextColumns q.toContextColumns ∧ q.createdAt ≤ p.createdAt
      ∧ ∃ r ∈ s.rowsOf q.invocationID, r.status = .running ∧ r.occurredAt ≤ p.createdAt

/-- The projection's last event is stored. -/
theorem Tracked.last_row (hs : s.Tracked) (hp : p ∈ s.invocations) :
    p.createdAt ≤ p.updatedAt
      ∧ ∃ r ∈ s.rowsOf p.invocationID, r.status = p.status ∧ r.occurredAt = p.updatedAt := by
  obtain ⟨h, rfl, hrows⟩ := hs.history p hp
  refine ⟨h.le_last _ h.first_mem, h.last.row, ?_, rfl, rfl⟩
  rw [← hrows]
  exact List.mem_map_of_mem h.last_mem

theorem mem_rowsOf_concat {ps : List InvocationRow} {id : String} {r : EventRow}
    (hr : r ∈ s.rowsOf id) : r ∈ (Ledger.mk ps (s.events ++ [e.row])).rowsOf id := by
  rw [rowsOf_concat]
  split_ifs
  · exact List.mem_append_left _ hr
  · exact hr

theorem Step.lineage (hs : s.Tracked) (hl : s.Lineage) (h : Step s e s') : s'.Lineage := by
  cases h with
  | created hadm hnew hparent =>
      intro older p newer hsplit hp
      rcases Transact.split_concat_iff.mp hsplit with ⟨-, rfl, rfl⟩ | ⟨newer', -, hold⟩
      · -- the new invocation: its parent is running now
        obtain ⟨q, hq, hchild, hrun, hle⟩ := hparent (nullableText_ne_none hp)
        obtain ⟨hcreated, r, hr, hstatus, hat⟩ := hs.last_row hq
        exact ⟨q, hq, hchild, le_trans hcreated hle, r, mem_rowsOf_concat hr,
          hstatus.trans hrun, hat.le.trans hle⟩
      · obtain ⟨q, hq, hchild, hle, r, hr, hrest⟩ := hl older p newer' hold hp
        exact ⟨q, hq, hchild, hle, r, mem_rowsOf_concat hr, hrest⟩
  | continued hist hmem hid hrows hadm hle =>
      intro older p newer hsplit hp
      -- an update keeps the order, the columns and the creation times
      have hframe : ∀ r ∈ s.invocations,
          (if r.invocationID = e.event.invocationID then (hist.extend e hadm hle).projection
            else r).toContextColumns = r.toContextColumns
          ∧ (if r.invocationID = e.event.invocationID then (hist.extend e hadm hle).projection
            else r).createdAt = r.createdAt := by
        intro r hr
        split_ifs with hrid
        · rw [hs.unique hr hmem (hrid.trans hid.symm), hist.extend_projection]
          exact ⟨rfl, rfl⟩
        · exact ⟨rfl, rfl⟩
      obtain ⟨older0, rest0, hinv, rfl, hrest⟩ := List.map_eq_append_iff.mp hsplit
      obtain ⟨p0, newer0, rfl, rfl, rfl⟩ := List.map_eq_cons_iff.mp hrest
      obtain ⟨hcols, hcreated⟩ := hframe p0 (by rw [hinv]; simp)
      rw [hcols] at hp
      obtain ⟨q, hq, hchild, hqle, r, hr, hstatus, hat⟩ := hl older0 p0 newer0 hinv hp
      obtain ⟨hqcols, hqcreated⟩ := hframe q (by rw [hinv]; exact List.mem_append_left _ hq)
      refine ⟨_, List.mem_map_of_mem hq, ?_⟩
      rw [hcols, hcreated, hqcols, hqcreated]
      exact ⟨hchild, hqle, r, mem_rowsOf_concat hr, hstatus, hat⟩

theorem appendAll_lineage (calls : List InvocationEventV03) : (appendAll calls).Lineage := by
  have hboth : (appendAll calls).Tracked ∧ (appendAll calls).Lineage := by
    refine Transact.run_induction (P := fun s : Ledger => s.Tracked ∧ s.Lineage) ?_
      ⟨empty_tracked, ?_⟩ calls
    · rintro s event s' ⟨hs, hl⟩ h
      obtain ⟨e, -, hstep⟩ := step_of_append hs h
      exact ⟨hstep.tracked hs, hstep.lineage hs hl⟩
    · intro older p newer h
      simp [empty] at h
  exact hboth.2

/-- How a stored child came about: the call that created it found its
parent stored and running. -/
def BornUnder (calls : List InvocationEventV03) (p : InvocationRow) (parentID : String) : Prop :=
  ∃ pre e post, calls = pre ++ e :: post ∧ e.invocationID = p.invocationID
    ∧ (appendAll pre).findProjection p.invocationID = none
    ∧ ∃ q, (appendAll pre).findProjection parentID = some q ∧ q.status = .running
      ∧ q.updatedAt ≤ p.createdAt ∧ ChildOf p.toContextColumns q.toContextColumns

theorem BornUnder.concat {p' : InvocationRow} {parentID : String} (h : BornUnder calls p parentID)
    (hcols : p'.toContextColumns = p.toContextColumns) (hcreated : p'.createdAt = p.createdAt)
    (e : InvocationEventV03) : BornUnder (calls ++ [e]) p' parentID := by
  obtain ⟨pre, e0, post, rfl, hid, hnone, q, hfind, hrun, hle, hchild⟩ := h
  refine ⟨pre, e0, post ++ [e], by simp, ?_, ?_, q, hfind, hrun, ?_, ?_⟩
  · rw [hcols]
    exact hid
  · rw [hcols]
    exact hnone
  · rw [hcreated]
    exact hle
  · rw [hcols]
    exact hchild

theorem Step.bornUnder (h : Step (appendAll calls) e s')
    (hborn : ∀ p ∈ (appendAll calls).invocations, ∀ parentID ∈ p.parentInvocationID,
      BornUnder calls p parentID) :
    ∀ p ∈ s'.invocations, ∀ parentID ∈ p.parentInvocationID,
      BornUnder (calls ++ [e.event]) p parentID := by
  have hs := appendAll_tracked calls
  intro p hp parentID hparentID
  cases h with
  | created hadm hnew hparent =>
      rcases List.mem_append.mp hp with hp | hp
      · exact (hborn p hp parentID hparentID).concat rfl rfl _
      · rw [List.mem_singleton.mp hp] at hparentID ⊢
        have hsome : nullableText e.event.parentInvocationID = some parentID := hparentID
        obtain ⟨q, hq, hchild, hrun, hle⟩ := hparent
          (nullableText_ne_none (by rw [hsome]; exact Option.some_ne_none _))
        have hqid : q.invocationID = parentID :=
          Option.some.inj (hchild.parentInvocationID.symm.trans hsome)
        refine ⟨calls, e.event, [], rfl, rfl, ?_, q, ?_, hrun, hle, hchild⟩
        · exact List.find?_eq_none.mpr fun r hr h => hnew r hr (of_decide_eq_true h)
        · rw [← hqid]
          exact hs.find_of_mem hq
  | continued hist hmem hid hrows hadm hle =>
      obtain ⟨q, hq, rfl⟩ := List.mem_map.mp hp
      split_ifs at hparentID ⊢ with hqid
      · obtain rfl := hs.unique hq hmem (hqid.trans hid.symm)
        rw [hist.extend_projection] at hparentID ⊢
        exact (hborn _ hq parentID hparentID).concat rfl rfl _
      · exact (hborn q hq parentID hparentID).concat rfl rfl _

theorem appendAll_bornUnder (calls : List InvocationEventV03) :
    ∀ p ∈ (appendAll calls).invocations, ∀ parentID ∈ p.parentInvocationID,
      BornUnder calls p parentID := by
  refine appendAll_induction (P := fun calls (s : Ledger) =>
    ∀ p ∈ s.invocations, ∀ parentID ∈ p.parentInvocationID, BornUnder calls p parentID) ?_ ?_ ?_
    calls
  · intro p hp
    exact absurd hp List.not_mem_nil
  · intro pre e s' ih hstep _
    exact hstep.bornUnder ih
  · intro pre event ih _ p hp parentID hparentID
    exact (ih p hp parentID hparentID).concat rfl rfl event

/-! ## Frames over runs -/

/-- What calls after `calls` cannot change. -/
theorem appendAll_append_frozen (calls later : List InvocationEventV03)
    (hp : p ∈ (appendAll calls).invocations) (hterm : isRuntimeTerminalStatus p.status = true) :
    p ∈ (appendAll (calls ++ later)).invocations
      ∧ (appendAll (calls ++ later)).rowsOf p.invocationID
        = (appendAll calls).rowsOf p.invocationID := by
  have hrun : appendAll (calls ++ later) = Transact.run append (appendAll calls) later :=
    Transact.run_append ..
  rw [hrun]
  refine (Transact.run_induction (P := fun s : Ledger => s.Tracked ∧ p ∈ s.invocations
    ∧ s.rowsOf p.invocationID = (appendAll calls).rowsOf p.invocationID) ?_
    ⟨appendAll_tracked calls, hp, rfl⟩ later).2
  rintro s event s' ⟨hs, hmem, hrows⟩ h
  obtain ⟨e, -, hstep⟩ := step_of_append hs h
  obtain ⟨hmem', hrows'⟩ := hstep.frozen hs hmem hterm
  exact ⟨hstep.tracked hs, hmem', hrows'.trans hrows⟩

/-! ## Soundness -/

/-- The UTC year of the event's time has four digits. -/
def YearInRange (e : InvocationEventV03) : Prop :=
  ∀ t, Rfc3339.parse e.occurredAt = some t → 0 ≤ t.utcYear ∧ t.utcYear ≤ 9999

/-- What the ledger promises of the state after `calls`. -/
structure Sound (calls : List InvocationEventV03) : Prop where
  sequences : ∀ id, ((appendAll calls).eventRows id).map (·.sequence)
    = (List.range ((appendAll calls).eventRows id).length).map fun i : Nat => (i : Int)
  accepted : ∀ id, ∃ es v, (appendAll calls).readEvents id = some es
    ∧ fresh.acceptAll es = .ok v
  ordered : ∀ id, ((appendAll calls).eventRows id).Pairwise fun a b => a.occurredAt ≤ b.occurredAt
  projection : ∀ id,
    (appendAll calls).findProjection id = foldRows ((appendAll calls).eventRows id)
  context : ∀ p ∈ (appendAll calls).invocations,
    ∀ r ∈ (appendAll calls).eventRows p.invocationID, r.toContextColumns = p.toContextColumns
  frozen : ∀ p ∈ (appendAll calls).invocations, isRuntimeTerminalStatus p.status = true →
    ∀ later, (appendAll (calls ++ later)).findProjection p.invocationID = some p
      ∧ (appendAll (calls ++ later)).eventRows p.invocationID
        = (appendAll calls).eventRows p.invocationID
  lineage : ∀ p ∈ (appendAll calls).invocations, ∀ parentID ∈ p.parentInvocationID,
    BornUnder calls p parentID
      ∧ ∃ q, (appendAll calls).findProjection parentID = some q
        ∧ ChildOf p.toContextColumns q.toContextColumns ∧ q.createdAt ≤ p.createdAt

/-- Reads of an invocation are reads of a history, or of nothing. -/
theorem Tracked.rowsOf_cases (hs : s.Tracked) (id : String) :
    (s.findProjection id = none ∧ s.rowsOf id = [])
      ∨ ∃ h : History, h.rows = s.rowsOf id ∧ s.findProjection id = some h.projection := by
  cases hfind : s.findProjection id with
  | none =>
      refine .inl ⟨rfl, List.filter_eq_nil_iff.mpr fun r hr hrid => ?_⟩
      obtain ⟨p, hp, hpr⟩ := hs.owned r hr
      have hne := List.find?_eq_none.mp hfind p hp
      exact hne (decide_eq_true (hpr.trans (of_decide_eq_true hrid)))
  | some p =>
      obtain ⟨hp, rfl⟩ := mem_of_findProjection hfind
      obtain ⟨h, rfl, hrows⟩ := hs.history p hp
      exact .inr ⟨h, hrows, rfl⟩

/-- All stored events are valid again exactly when all stored years have
four digits. -/
theorem Tracked.accepted_iff (hs : s.Tracked) :
    (∀ id, ∃ es v, s.readEvents id = some es ∧ fresh.acceptAll es = .ok v) ↔
      ∀ r ∈ s.events, 0 ≤ r.occurredAt.utcYear ∧ r.occurredAt.utcYear ≤ 9999 := by
  constructor
  · intro h r hr
    have hmem : r ∈ s.rowsOf r.invocationID := List.mem_filter.mpr ⟨hr, decide_eq_true rfl⟩
    rcases hs.rowsOf_cases r.invocationID with ⟨-, hnil⟩ | ⟨hist, hrows, -⟩
    · rw [hnil] at hmem
      exact absurd hmem List.not_mem_nil
    · rw [← hrows] at hmem
      obtain ⟨e, he, rfl⟩ := List.mem_map.mp hmem
      obtain ⟨es, v, hread, hall⟩ := h e.row.invocationID
      rw [hs.readEvents_eq hrows, Option.some.injEq] at hread
      subst hread
      exact e.canonical_valid_iff.mp
        ((acceptAll_ok_iff.mp hall).1 e.canonical (List.mem_map_of_mem he))
  · intro h id
    rcases hs.rowsOf_cases id with ⟨-, hnil⟩ | ⟨hist, hrows, -⟩
    · refine ⟨[], fresh, ?_, rfl⟩
      unfold readEvents
      rw [hs.eventRows_eq, hnil]
      rfl
    · refine ⟨_, _, hs.readEvents_eq hrows, acceptAll_ok_iff.mpr ⟨?_, hist.admitted, rfl⟩⟩
      intro c hc
      obtain ⟨e, he, rfl⟩ := List.mem_map.mp hc
      refine e.canonical_valid_iff.mpr (h e.row ?_)
      have hrow : e.row ∈ s.rowsOf id := by
        rw [← hrows]
        exact List.mem_map_of_mem he
      exact (List.mem_filter.mp hrow).1

/-- The stored years are those of the committed calls. -/
theorem years_iff (calls : List InvocationEventV03) :
    (∀ r ∈ (appendAll calls).events, 0 ≤ r.occurredAt.utcYear ∧ r.occurredAt.utcYear ≤ 9999) ↔
      ∀ pre e post, calls = pre ++ e :: post → (∃ s', (appendAll pre).append e = .ok s') →
        YearInRange e := by
  refine appendAll_induction (P := fun calls (s : Ledger) =>
    (∀ r ∈ s.events, 0 ≤ r.occurredAt.utcYear ∧ r.occurredAt.utcYear ≤ 9999) ↔
      ∀ pre e post, calls = pre ++ e :: post → (∃ s', (appendAll pre).append e = .ok s') →
        YearInRange e) ?_ ?_ ?_ calls
  · simp [empty]
  · intro pre e s' ih hstep h
    have hyear : YearInRange e.event ↔ 0 ≤ e.instant.utcYear ∧ e.instant.utcYear ≤ 9999 := by
      unfold YearInRange
      rw [e.stamp]
      simp
    rw [hstep.events, List.forall_mem_append, ih]
    simp only [List.forall_mem_singleton, Transact.split_concat_iff]
    constructor
    · rintro ⟨hold, hnew⟩ pre' event' post (⟨-, rfl, rfl⟩ | ⟨post', -, hpre⟩) hok
      · exact hyear.mpr hnew
      · exact hold pre' event' post' hpre hok
    · intro hall
      refine ⟨fun pre' event' post hpre hok =>
        hall pre' event' _ (.inr ⟨post, rfl, hpre⟩) hok, hyear.mp ?_⟩
      exact hall pre e.event [] (.inl ⟨rfl, rfl, rfl⟩) ⟨s', h⟩
  · intro pre event ih hfail
    rw [ih]
    simp only [Transact.split_concat_iff]
    constructor
    · rintro hold pre' event' post (⟨-, rfl, rfl⟩ | ⟨post', -, hpre⟩) hok
      · exact absurd hok.choose_spec (hfail _)
      · exact hold pre' event' post' hpre hok
    · intro hall pre' event' post hpre hok
      exact hall pre' event' _ (.inr ⟨post, rfl, hpre⟩) hok

/-- **Reachable ledgers.** After any `Append` calls the ledger keeps all
its promises exactly when every committed event's time lies in a
four-digit UTC year. -/
theorem sound_iff (calls : List InvocationEventV03) :
    Sound calls ↔
      ∀ pre e post, calls = pre ++ e :: post → (∃ s', (appendAll pre).append e = .ok s') →
        YearInRange e := by
  have hs := appendAll_tracked calls
  rw [← years_iff, ← hs.accepted_iff]
  refine ⟨fun h => h.accepted, fun haccepted => ⟨?_, haccepted, ?_, ?_, ?_, ?_, ?_⟩⟩
  · intro id
    rw [hs.eventRows_eq]
    rcases hs.rowsOf_cases id with ⟨-, hnil⟩ | ⟨hist, hrows, -⟩
    · rw [hnil]
      rfl
    · rw [← hrows]
      have hmap : hist.rows.map (·.sequence) = hist.events.map (·.event.sequence) := by
        unfold History.rows
        rw [List.map_map]
        rfl
      rw [hmap, hist.sequences]
      simp [History.rows]
  · intro id
    rw [hs.eventRows_eq]
    rcases hs.rowsOf_cases id with ⟨-, hnil⟩ | ⟨hist, hrows, -⟩
    · rw [hnil]
      exact List.Pairwise.nil
    · rw [← hrows]
      exact List.pairwise_map.mpr hist.ordered
  · intro id
    rw [hs.eventRows_eq]
    rcases hs.rowsOf_cases id with ⟨hnone, hnil⟩ | ⟨hist, hrows, hfind⟩
    · rw [hnone, hnil]
      rfl
    · rw [hfind, ← hrows, hist.foldRows_rows]
  · intro p hp r hr
    rw [hs.eventRows_eq] at hr
    obtain ⟨hist, rfl, hrows⟩ := hs.history p hp
    rw [← hrows] at hr
    obtain ⟨e, he, rfl⟩ := List.mem_map.mp hr
    exact hist.columns_eq e he
  · intro p hp hterm later
    have hs' := appendAll_tracked (calls ++ later)
    obtain ⟨hp', hrows⟩ := appendAll_append_frozen calls later hp hterm
    exact ⟨hs'.find_of_mem hp', by rw [hs'.eventRows_eq, hs.eventRows_eq, hrows]⟩
  · intro p hp parentID hparentID
    refine ⟨appendAll_bornUnder calls p hp parentID hparentID, ?_⟩
    obtain ⟨older, newer, hsplit⟩ := List.append_of_mem hp
    have hsome : p.parentInvocationID = some parentID := hparentID
    obtain ⟨q, hq, hchild, hle, -⟩ := appendAll_lineage calls older p newer hsplit
      (by rw [hsome]; exact Option.some_ne_none _)
    have hqid : q.invocationID = parentID :=
      Option.some.inj (hchild.parentInvocationID.symm.trans hsome)
    refine ⟨q, ?_, hchild, hle⟩
    rw [← hqid]
    exact hs.find_of_mem (by rw [hsplit]; exact List.mem_append_left _ hq)

end Runs

/-- The first event of an invocation, one hour before the year 0 in
UTC. -/
def offsetEvent : InvocationEventV03 where
  invocationID := "inv-1"
  rootTaskID := "task-1"
  parentInvocationID := ""
  traceID := "trace-1"
  caller := ⟨.user, "user-1"⟩
  workspaceID := "workspace-1"
  targetAgentID := "agent-1"
  agentCardVersion := "1.0.0"
  agentReleaseID := ""
  agentCardDigest := ""
  capability := "capability-1"
  schemaVersion := "0.3"
  eventID := "event-1"
  sequence := 0
  occurredAt := "0000-01-01T00:00:00+01:00"
  type := .created
  status := .pending
  chunkIndex := none
  chunkBytes := none
  latencyMS := none
  error := none

/-- The event is committed, and a fresh validator rejects what is read
back. -/
theorem offsetEvent_not_sound :
    letI := Semver.only ["1.0.0"]
    (appendAll [offsetEvent]).events.length = 1 ∧ ¬Sound [offsetEvent] := by
  let _ := Semver.only ["1.0.0"]
  refine ⟨by decide +kernel, fun h => ?_⟩
  have hrejected : ((appendAll [offsetEvent]).readEvents "inv-1").any
      (fun es => (fresh.acceptAll es).isOk) = false := by
    decide +kernel
  obtain ⟨es, v, hread, hall⟩ := h.accepted "inv-1"
  rw [hread, Option.any_some, hall] at hrejected
  cases hrejected

end Ledger

end Nekiro
