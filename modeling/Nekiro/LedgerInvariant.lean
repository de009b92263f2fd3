import Nekiro.LedgerHistory

/-!
# The ledger invariant

Every state the ledger reaches by `Append` calls is a table of histories
(`Tracked`): each projection is that of a history whose rows are the
stored events of the invocation, and each child was created under a
running parent (`Lineage`).

`step_of_append` says once what a committed `Append` can do - begin a
history or extend one - and the run results follow by the invariant rule
for transactions. The stored events are valid *again* only for instants
in a four-digit UTC year: an event whose zone offset moves it out of that
range is accepted, stored, and from then on rejected by every reader.
-/

namespace Nekiro

namespace Ledger

open Guard LedgerTables RuntimeInvocationSequenceValidator

/-- The event rows of one invocation in insertion order. -/
def rowsOf (s : Ledger) (invocationID : String) : List EventRow :=
  s.events.filter fun r => r.invocationID = invocationID

variable {s s' : Ledger} {t : Time} {event : InvocationEventV03}

theorem mem_of_findProjection {id : String} {p : InvocationRow} (h : s.findProjection id = some p) :
    p ∈ s.invocations ∧ p.invocationID = id :=
  ⟨List.mem_of_find?_eq_some h, by simpa using List.find?_some h⟩

theorem updateProjection_ok_iff {e : InvocationEventV03} :
    s.updateProjection e t = .ok s' ↔
      (∀ r ∈ s.invocations, r.invocationID = e.invocationID → (updatedRow r e t).Types)
        ∧ (∀ r ∈ s.invocations, r.invocationID = e.invocationID → (updatedRow r e t).Checks)
        ∧ (s.invocations.filter fun r => r.invocationID = e.invocationID).length = 1
        ∧ s' = { s with invocations := s.invocations.map fun r =>
          if r.invocationID = e.invocationID then updatedRow r e t else r } := by
  unfold updateProjection
  simp only [check_bind_ok_iff, require_ok_iff, pure, Except.pure, Except.ok.injEq,
    eq_comm (a := s'), List.mem_filter, decide_eq_true_eq, and_imp]

/-- What a stored child has from its parent. -/
structure ChildOf (child parent : ContextColumns) : Prop where
  parentInvocationID : child.parentInvocationID = some parent.invocationID
  distinct : child.invocationID ≠ parent.invocationID
  rootTaskID : child.rootTaskID = parent.rootTaskID
  traceID : child.traceID = parent.traceID
  workspaceID : child.workspaceID = parent.workspaceID
  callerType : child.callerType = .agent
  callerID : child.callerID = parent.targetAgentID

variable [Semver] {e : StampedEvent}

/-! ## What a committed call does -/

/-- The stored parent of a new invocation, running and not ahead of the
child's time. -/
def RunningParent (s : Ledger) (e : StampedEvent) : Prop :=
  ∃ p ∈ s.invocations, ChildOf e.columns p.toContextColumns ∧ p.status = .running
    ∧ p.updatedAt ≤ e.instant

inductive Step (s : Ledger) (e : StampedEvent) : Ledger → Prop where
  | created (hadm : fresh.Admits e.event)
      (hnew : ∀ r ∈ s.invocations, r.invocationID ≠ e.event.invocationID)
      (hparent : e.event.parentInvocationID ≠ "" → s.RunningParent e) :
      Step s e ⟨s.invocations ++ [(History.start e hadm).projection], s.events ++ [e.row]⟩
  | continued (h : History) (hmem : h.projection ∈ s.invocations)
      (hid : h.projection.invocationID = e.event.invocationID)
      (hrows : h.rows = s.rowsOf e.event.invocationID)
      (hadm : (fresh.nextAll (h.events.map StampedEvent.canonical)).Admits e.event)
      (hle : h.last.instant ≤ e.instant) :
      Step s e ⟨s.invocations.map fun r =>
        if r.invocationID = e.event.invocationID then (h.extend e hadm hle).projection else r,
        s.events ++ [e.row]⟩

/-- The tables hold the rows and projections of histories. -/
structure Tracked (s : Ledger) : Prop where
  ids : (s.invocations.map (·.invocationID)).Nodup
  owned : ∀ r ∈ s.events, ∃ p ∈ s.invocations, p.invocationID = r.invocationID
  history : ∀ p ∈ s.invocations,
    ∃ h : History, h.projection = p ∧ h.rows = s.rowsOf p.invocationID

theorem History.eventRows_sorted (h : History) :
    h.rows.Pairwise fun a b => a.sequence ≤ b.sequence := by
  have hmap : (h.events.map (·.event.sequence)).Pairwise (· ≤ ·) := by
    rw [h.sequences]
    refine List.pairwise_map.mpr (List.pairwise_lt_range.imp fun hlt => ?_)
    exact Int.ofNat_le.mpr (Nat.le_of_lt hlt)
  exact List.pairwise_map.mpr (List.pairwise_map.mp hmap)

namespace Tracked

theorem unique {s : Ledger} (hs : s.Tracked) {p q : InvocationRow} (hp : p ∈ s.invocations)
    (hq : q ∈ s.invocations) (hid : p.invocationID = q.invocationID) : p = q :=
  List.inj_on_of_nodup_map hs.ids hp hq hid

/-- Reading in sequence order is reading in insertion order. -/
theorem eventRows_eq {s : Ledger} (hs : s.Tracked) (id : String) :
    s.eventRows id = s.rowsOf id := by
  refine List.Pairwise.insertionSort_eq ?_
  by_cases hid : ∃ p ∈ s.invocations, p.invocationID = id
  · obtain ⟨p, hp, rfl⟩ := hid
    obtain ⟨h, -, hrows⟩ := hs.history p hp
    have := h.eventRows_sorted
    rwa [hrows] at this
  · have hnil : s.rowsOf id = [] := by
      refine List.filter_eq_nil_iff.mpr fun r hr hrid => hid ?_
      obtain ⟨p, hp, hpr⟩ := hs.owned r hr
      exact ⟨p, hp, hpr.trans (of_decide_eq_true hrid)⟩
    unfold rowsOf at hnil
    rw [hnil]
    exact List.Pairwise.nil

theorem readEvents_eq {s : Ledger} (hs : s.Tracked) {h : History} {id : String}
    (hrows : h.rows = s.rowsOf id) :
    s.readEvents id = some (h.events.map StampedEvent.canonical) := by
  unfold readEvents
  rw [hs.eventRows_eq id, ← hrows]
  exact StampedEvent.mapM_scanEvent_row h.events

end Tracked

theorem validateCandidate_ok {e : InvocationEventV03} (h : validateCandidate e = .ok t) :
    ∃ st : StampedEvent, st.event = e ∧ st.instant = t ∧ (e.sequence = 0 → fresh.Admits e) := by
  unfold validateCandidate at h
  rw [check_bind_ok_iff, orFail_ok_iff] at h
  obtain ⟨hvalid, h⟩ := h
  cases hparse : Rfc3339.parse e.occurredAt with
  | none => simp [hparse] at h
  | some t' =>
      simp only [hparse] at h
      rw [check_bind_ok_iff] at h
      split_ifs at h with hseq
      · obtain ⟨-, h⟩ := h
        rw [bind_ok_iff] at h
        obtain ⟨v, hv, ht⟩ := h
        obtain rfl := Except.ok.inj ht
        exact ⟨⟨e, t', hvalid, hparse⟩, rfl, rfl,
          fun _ => (accept_ok_iff.mp (orFail_ok_iff.mp hv)).2.1⟩
      · obtain rfl := Except.ok.inj h.2
        exact ⟨⟨e, t', hvalid, hparse⟩, rfl, rfl, fun h0 => absurd h0 hseq⟩

/-- A locked projection is that of a history. -/
theorem lockProjection_ok (hs : s.Tracked) {id operation : String} {missing : LedgerError}
    {record : InvocationRecordV1} (h : s.lockProjection id operation missing = .ok record) :
    ∃ hist : History, hist.projection ∈ s.invocations ∧ hist.projection.invocationID = id
      ∧ hist.rows = s.rowsOf id ∧ record = hist.record := by
  unfold lockProjection at h
  cases hfind : s.findProjection id with
  | none => simp [hfind] at h
  | some row =>
      obtain ⟨hmem, hid⟩ := mem_of_findProjection hfind
      obtain ⟨hist, rfl, hrows⟩ := hs.history row hmem
      simp only [hfind, hist.scanProjection_projection, orDependency, Except.ok.injEq] at h
      exact ⟨hist, hmem, hid, hid ▸ hrows, h.symm⟩

theorem checkParent_ok (hs : s.Tracked) (h : s.checkParent e.event e.instant = .ok ())
    (hne : e.event.parentInvocationID ≠ "") : s.RunningParent e := by
  unfold checkParent at h
  rw [if_neg hne, bind_ok_iff] at h
  obtain ⟨parent, hlock, h⟩ := h
  simp only [check_bind_ok_iff, orFail_ok_iff, require_ok_iff] at h
  obtain ⟨hist, hmem, -, -, rfl⟩ := lockProjection_ok hs hlock
  obtain ⟨hrun, -, -, -, hchild⟩ := validateNestedInvocationCorrelation_ok_iff.mp h.1
  have hnull : nullableText e.event.parentInvocationID = some e.event.parentInvocationID :=
    if_neg hne
  refine ⟨hist.projection, hmem, ⟨?_, hchild.distinct, hchild.rootTaskID, hchild.traceID,
    hchild.workspaceID, ?_, ?_⟩, hrun, h.2⟩
  · exact hnull.trans (congrArg some hchild.parentInvocationID)
  · exact congrArg Caller.type hchild.caller
  · exact congrArg Caller.id hchild.caller

theorem checkHistory_ok (hs : s.Tracked) (h : s.checkHistory e.event e.instant = .ok ()) :
    ∃ hist : History, hist.projection ∈ s.invocations
      ∧ hist.projection.invocationID = e.event.invocationID
      ∧ hist.rows = s.rowsOf e.event.invocationID
      ∧ (fresh.nextAll (hist.events.map StampedEvent.canonical)).Admits e.event
      ∧ hist.last.instant ≤ e.instant := by
  unfold checkHistory at h
  rw [bind_ok_iff] at h
  obtain ⟨projection, hlock, h⟩ := h
  rw [check_bind_ok_iff, require_ok_iff, bind_ok_iff] at h
  obtain ⟨hle, history, hread, h⟩ := h
  obtain ⟨hist, hmem, hid, hrows, rfl⟩ := lockProjection_ok hs hlock
  rw [hs.readEvents_eq hrows, orDependency, Except.ok.injEq] at hread
  rw [check_bind_ok_iff, check_bind_ok_iff, bind_ok_iff] at h
  obtain ⟨-, -, v, hall, h⟩ := h
  rw [bind_ok_iff] at h
  obtain ⟨v', haccept, -⟩ := h
  rw [orFail_ok_iff, ← hread] at hall
  obtain ⟨-, -, rfl⟩ := acceptAll_ok_iff.mp hall
  exact ⟨hist, hmem, hid, hrows, (accept_ok_iff.mp (orFail_ok_iff.mp haccept)).2.1, hle⟩

/-- The first projection of an invocation. -/
def StampedEvent.startRow (e : StampedEvent) : InvocationRow :=
  ⟨e.columns, e.event.status, none, none, e.instant, e.instant⟩

theorem StampedEvent.invocationRow_eq (e : StampedEvent) :
    invocationRow e.event e.instant = some e.startRow := by
  simp [invocationRow, e.digestBytes_eq, startRow, columns]

theorem insertProjection_ok_iff :
    s.insertProjection e.event e.instant = .ok s' ↔
      e.startRow.Types ∧ e.startRow.Checks
        ∧ (∀ r ∈ s.invocations, r.invocationID ≠ e.event.invocationID)
        ∧ (∀ parent ∈ e.startRow.parentInvocationID,
          ∃ r ∈ s.invocations ++ [e.startRow], r.invocationID = parent)
        ∧ s' = { s with invocations := s.invocations ++ [e.startRow] } := by
  unfold insertProjection
  rw [e.invocationRow_eq]
  have hrow : orDependency "insert Invocation projection" (some e.startRow) = .ok e.startRow := rfl
  rw [hrow]
  simp only [ok_bind, check_bind_ok_iff, require_ok_iff, pure, Except.pure,
    Except.ok.injEq, eq_comm (a := s')]
  rfl

theorem insertEvent_ok_iff :
    s.insertEvent e.event e.instant = .ok s' ↔
      e.row.Types ∧ e.row.Checks ∧ (∀ r ∈ s.events, r.eventID ≠ e.event.eventID)
        ∧ (∀ r ∈ s.events,
          ¬(r.invocationID = e.event.invocationID ∧ r.sequence = e.event.sequence))
        ∧ (∃ r ∈ s.invocations, r.invocationID = e.event.invocationID)
        ∧ s' = { s with events := s.events ++ [e.row] } := by
  unfold insertEvent
  rw [e.eventRow_eq]
  have hrow : orDependency "insert Invocation event" (some e.row) = .ok e.row := rfl
  rw [hrow]
  simp only [ok_bind, check_bind_ok_iff, require_ok_iff, pure, Except.pure,
    Except.ok.injEq, eq_comm (a := s')]
  rfl

/-- What `checks` establishes, apart from what is written. -/
theorem checks_ok (hs : s.Tracked) (h : s.checks event = .ok t) :
    ∃ e : StampedEvent, e.event = event ∧ e.instant = t
      ∧ ((event.sequence = 0 ∧ fresh.Admits e.event
          ∧ (e.event.parentInvocationID ≠ "" → s.RunningParent e))
        ∨ (event.sequence ≠ 0 ∧ ∃ hist : History, hist.projection ∈ s.invocations
          ∧ hist.projection.invocationID = e.event.invocationID
          ∧ hist.rows = s.rowsOf e.event.invocationID
          ∧ (fresh.nextAll (hist.events.map StampedEvent.canonical)).Admits e.event
          ∧ hist.last.instant ≤ e.instant)) := by
  unfold checks at h
  rw [bind_ok_iff] at h
  obtain ⟨t', hcand, h⟩ := h
  obtain ⟨e, rfl, rfl, hfirst⟩ := validateCandidate_ok hcand
  refine ⟨e, rfl, ?_⟩
  by_cases hseq : e.event.sequence = 0
  · rw [if_pos hseq, check_bind_ok_iff] at h
    exact ⟨Except.ok.inj h.2, .inl ⟨hseq, hfirst hseq, checkParent_ok hs h.1⟩⟩
  · rw [if_neg hseq, check_bind_ok_iff] at h
    exact ⟨Except.ok.inj h.2, .inr ⟨hseq, checkHistory_ok hs h.1⟩⟩

theorem start_projection (e : StampedEvent) (hadm : fresh.Admits e.event) :
    (History.start e hadm).projection = e.startRow := by
  have hshape := e.schema.shape
  simp only [InvocationEventV03.shape, (hadm.start rfl).1, Bool.and_eq_true, beq_iff_eq] at hshape
  have hproj : (History.start e hadm).projection = ⟨e.columns, e.event.status, e.event.latencyMS,
    e.event.error.map (·.code), e.instant, e.instant⟩ := rfl
  rw [hproj, hshape.1.2, hshape.2]
  rfl

/-- **What a committed `Append` does**: it begins a history or extends
the stored one. -/
theorem step_of_append (hs : s.Tracked) (h : s.append event = .ok s') :
    ∃ e : StampedEvent, e.event = event ∧ Step s e s' := by
  unfold append at h
  rw [bind_ok_iff] at h
  obtain ⟨t, hchecks, hwrites⟩ := h
  unfold writes at hwrites
  obtain ⟨e, rfl, rfl, ⟨hseq, hadm, hparent⟩ | ⟨hseq, hist, hmem, hid, hrows, hadm, hle⟩⟩ :=
    checks_ok hs hchecks
  · refine ⟨e, rfl, ?_⟩
    rw [if_pos hseq, bind_ok_iff] at hwrites
    obtain ⟨s1, hproj, hevent⟩ := hwrites
    obtain ⟨-, -, hnew, -, rfl⟩ := insertProjection_ok_iff.mp hproj
    obtain ⟨-, -, -, -, -, rfl⟩ := insertEvent_ok_iff.mp hevent
    rw [← start_projection e hadm]
    exact .created hadm hnew hparent
  · refine ⟨e, rfl, ?_⟩
    rw [if_neg hseq, bind_ok_iff] at hwrites
    obtain ⟨s1, hevent, hproj⟩ := hwrites
    obtain ⟨-, -, -, -, -, rfl⟩ := insertEvent_ok_iff.mp hevent
    obtain ⟨-, -, -, rfl⟩ := updateProjection_ok_iff.mp hproj
    have hmap : s.invocations.map (fun r =>
          if r.invocationID = e.event.invocationID then updatedRow r e.event e.instant else r)
        = s.invocations.map fun r =>
          if r.invocationID = e.event.invocationID then (hist.extend e hadm hle).projection
          else r := by
      refine List.map_congr_left fun r hr => ?_
      split_ifs with hrid
      · rw [hs.unique hr hmem (hrid.trans hid.symm), hist.extend_projection]
      · rfl
    simp only [hmap]
    exact .continued hist hmem hid hrows hadm hle

/-! ## What a step preserves -/

theorem rowsOf_concat (s : Ledger) (e : StampedEvent) (ps : List InvocationRow) (id : String) :
    (Ledger.mk ps (s.events ++ [e.row])).rowsOf id
      = if e.event.invocationID = id then s.rowsOf id ++ [e.row] else s.rowsOf id := by
  have hid : e.row.invocationID = e.event.invocationID := rfl
  unfold rowsOf
  rw [List.filter_append]
  by_cases h : e.event.invocationID = id
  · simp [hid, h]
  · simp [hid, h]

theorem extend_rows (h : History) (e : StampedEvent)
    (hadm : (fresh.nextAll (h.events.map StampedEvent.canonical)).Admits e.event)
    (hle : h.last.instant ≤ e.instant) : (h.extend e hadm hle).rows = h.rows ++ [e.row] := by
  simp [History.rows, History.extend]

theorem Step.tracked (hs : s.Tracked) (h : Step s e s') : s'.Tracked := by
  cases h with
  | created hadm hnew hparent =>
      have hstart : (History.start e hadm).projection.invocationID = e.event.invocationID := rfl
      have hnone : s.rowsOf e.event.invocationID = [] := by
        refine List.filter_eq_nil_iff.mpr fun r hr hrid => ?_
        obtain ⟨p, hp, hpr⟩ := hs.owned r hr
        exact hnew p hp (hpr.trans (of_decide_eq_true hrid))
      refine ⟨?_, ?_, ?_⟩
      · rw [List.map_append, List.map_singleton, List.nodup_append]
        refine ⟨hs.ids, List.nodup_singleton _, ?_⟩
        intro id hid id' hid'
        obtain ⟨p, hp, rfl⟩ := List.mem_map.mp hid
        rw [List.mem_singleton.mp hid', hstart]
        exact hnew p hp
      · intro r hr
        rcases List.mem_append.mp hr with hr | hr
        · obtain ⟨p, hp, hpr⟩ := hs.owned r hr
          exact ⟨p, List.mem_append_left _ hp, hpr⟩
        · rw [List.mem_singleton.mp hr]
          exact ⟨_, List.mem_append_right _ (List.mem_singleton_self _), rfl⟩
      · intro p hp
        rcases List.mem_append.mp hp with hp | hp
        · obtain ⟨h, rfl, hrows⟩ := hs.history p hp
          refine ⟨h, rfl, ?_⟩
          rw [rowsOf_concat, if_neg (hnew _ hp).symm, hrows]
        · rw [List.mem_singleton.mp hp]
          refine ⟨History.start e hadm, rfl, ?_⟩
          rw [rowsOf_concat, if_pos hstart.symm, hstart, hnone]
          rfl
  | continued hist hmem hid hrows hadm hle =>
      have hext : (hist.extend e hadm hle).projection.invocationID = e.event.invocationID := by
        rw [hist.extend_projection]
        exact hid
      have hids : ∀ r : InvocationRow, (if r.invocationID = e.event.invocationID then
          (hist.extend e hadm hle).projection else r).invocationID = r.invocationID := by
        intro r
        split_ifs with hr
        · rw [hext, hr]
        · rfl
      refine ⟨?_, ?_, ?_⟩
      · rw [List.map_map]
        simp only [Function.comp_def, hids]
        exact hs.ids
      · intro r hr
        rcases List.mem_append.mp hr with hr | hr
        · obtain ⟨p, hp, hpr⟩ := hs.owned r hr
          exact ⟨_, List.mem_map_of_mem hp, (hids p).trans hpr⟩
        · rw [List.mem_singleton.mp hr]
          exact ⟨_, List.mem_map_of_mem hmem, (hids _).trans hid⟩
      · intro p hp
        obtain ⟨q, hq, rfl⟩ := List.mem_map.mp hp
        split_ifs with hqid
        · refine ⟨hist.extend e hadm hle, rfl, ?_⟩
          rw [rowsOf_concat, if_pos hext.symm, hext, extend_rows, hrows]
        · obtain ⟨h, rfl, hqrows⟩ := hs.history q hq
          refine ⟨h, rfl, ?_⟩
          rw [rowsOf_concat, if_neg (Ne.symm hqid), hqrows]

theorem empty_tracked : empty.Tracked :=
  ⟨List.nodup_nil, fun _ h => absurd h List.not_mem_nil, fun _ h => absurd h List.not_mem_nil⟩

/-- Every reachable ledger is a table of histories. -/
theorem appendAll_tracked (calls : List InvocationEventV03) : (appendAll calls).Tracked :=
  Transact.run_induction (fun _ _ _ hs h => (step_of_append hs h).elim fun _ he => he.2.tracked hs)
    empty_tracked calls

/-- The induction over runs: a committed call is a step, a failed one
leaves the ledger. -/
theorem appendAll_induction {P : List InvocationEventV03 → Ledger → Prop} (h0 : P [] empty)
    (hok : ∀ pre (e : StampedEvent) s', P pre (appendAll pre) → Step (appendAll pre) e s' →
      (appendAll pre).append e.event = .ok s' → P (pre ++ [e.event]) s')
    (hfail : ∀ pre event, P pre (appendAll pre) →
      (∀ s', (appendAll pre).append event ≠ .ok s') → P (pre ++ [event]) (appendAll pre))
    (calls : List InvocationEventV03) : P calls (appendAll calls) := by
  refine Transact.run_history_induction h0 ?_ hfail calls
  intro pre event s' ih h
  obtain ⟨e, rfl, hstep⟩ := step_of_append (appendAll_tracked pre) h
  exact hok pre e s' ih hstep h

end Ledger

end Nekiro
