import Nekiro.LedgerSound
import Nekiro.ParentOrder

/-!
# Trace reads

`Store.GetTrace` reads the projections of one workspace and trace by
creation time, brings them into parent order and validates the result.

`orderTraceProjections` filters its working slice in place: `next`
shares the array of `remaining`, so a pass overwrites the array it is
reading. `TracePass` keeps that array and the number of elements written
to it; `tracePass_inStep` shows that a pass never overwrites an element it
has still to read, so that it computes the pass of `ParentOrder`.

The rest is the lineage of reachable ledgers (`LedgerSound`): it makes
the ordering succeed always, and the validation fail only for a
projection stamped with the zero time, which the contract check takes
for a missing one (`getTrace_iff`).
-/

namespace Nekiro

namespace Ledger

open Guard LedgerTables ParentOrder

/-! ## The ordering -/

structure TracePass where
  /-- The array under both `remaining` and `next`. -/
  array : List InvocationRecordV1
  /-- `len(next)`. -/
  written : Nat
  ordered : List InvocationRecordV1
  emitted : List String
  progress : Bool

def TracePass.emit (st : TracePass) (value : InvocationRecordV1) : TracePass :=
  { st with
    ordered := st.ordered ++ [value]
    emitted := value.invocationID :: st.emitted
    progress := true }

/-- The loop body at index `i` of `remaining`. -/
def TracePass.visit (st : TracePass) (i : Nat) : TracePass :=
  match st.array[i]? with
  | none => st
  | some value =>
      if value.parentInvocationID = "" then st.emit value
      else if value.parentInvocationID ∈ st.emitted then st.emit value
      else { st with array := st.array.set st.written value, written := st.written + 1 }

def tracePass (remaining ordered : List InvocationRecordV1) (emitted : List String) : TracePass :=
  (List.range remaining.length).foldl TracePass.visit ⟨remaining, 0, ordered, emitted, false⟩

/-- The outer loop; each pass that makes progress shortens `remaining`,
so the number of records bounds the passes. `none` is the error. -/
def orderLoop : Nat → List InvocationRecordV1 → List InvocationRecordV1 → List String →
    Option (List InvocationRecordV1)
  | _, [], ordered, _ => some ordered
  | 0, _ :: _, _, _ => none
  | fuel + 1, r :: remaining, ordered, emitted =>
      let st := tracePass (r :: remaining) ordered emitted
      if st.progress then orderLoop fuel (st.array.take st.written) st.ordered st.emitted
      else none

def orderTraceProjections (values : List InvocationRecordV1) : Option (List InvocationRecordV1) :=
  orderLoop values.length values [] []

/-- The in-place pass after `k` elements against the pass that builds a
new list: same outputs, and what is unread is intact. -/
structure InStep (remaining : List InvocationRecordV1) (k : Nat) (st : TracePass)
    (ref : Pass InvocationRecordV1 String) : Prop where
  ordered : st.ordered = ref.ordered
  emitted : st.emitted = ref.emitted
  progress : st.progress = ref.progress
  next : st.array.take st.written = ref.next
  written : st.written ≤ k
  unread : st.array.drop k = remaining.drop k
  length : st.array.length = remaining.length

theorem ready_iff {emitted : List String} {r : InvocationRecordV1} :
    Ready InvocationRecordV1.parent emitted r ↔
      r.parentInvocationID = "" ∨ r.parentInvocationID ∈ emitted := by
  unfold Ready InvocationRecordV1.parent
  by_cases h : r.parentInvocationID = "" <;> simp [h]

theorem InStep.visit {remaining : List InvocationRecordV1} {k : Nat} {st : TracePass}
    {ref : Pass InvocationRecordV1 String} (h : InStep remaining k st ref)
    {value : InvocationRecordV1} (hvalue : remaining[k]? = some value) :
    InStep remaining (k + 1) (st.visit k)
      (ParentOrder.visit (·.invocationID) InvocationRecordV1.parent ref value) := by
  have hk : k < remaining.length := (List.getElem?_eq_some_iff.mp hvalue).1
  have hget : st.array[k]? = some value := by
    have h0 := congrArg (·[0]?) h.unread
    simpa only [List.getElem?_drop, Nat.add_zero, hvalue] using h0
  have hunread : st.array.drop (k + 1) = remaining.drop (k + 1) := by
    rw [← List.tail_drop, h.unread, List.tail_drop]
  have hready : Ready InvocationRecordV1.parent ref.emitted value ↔
      value.parentInvocationID = "" ∨ value.parentInvocationID ∈ ref.emitted := ready_iff
  unfold TracePass.visit ParentOrder.visit
  rw [hget]
  by_cases hemit : value.parentInvocationID = "" ∨ value.parentInvocationID ∈ st.emitted
  · have hvisit : (if value.parentInvocationID = "" then st.emit value
        else if value.parentInvocationID ∈ st.emitted then st.emit value
        else { st with array := st.array.set st.written value, written := st.written + 1 })
        = st.emit value := by
      rcases hemit with h | h <;> simp [h]
    rw [if_pos (hready.mpr (h.emitted ▸ hemit))]
    simp only [hvisit]
    exact ⟨congrArg (· ++ [value]) h.ordered, congrArg (value.invocationID :: ·) h.emitted, rfl,
      h.next, by have := h.written; exact Nat.le_succ_of_le this, hunread, h.length⟩
  · rw [not_or] at hemit
    rw [if_neg fun hr => (not_or.mpr hemit) (h.emitted ▸ hready.mp hr)]
    simp only [if_neg hemit.1, if_neg hemit.2]
    have hlt : st.written < st.array.length := by
      have := h.written
      have := h.length
      omega
    refine ⟨h.ordered, h.emitted, h.progress, ?_, Nat.succ_le_succ h.written, ?_, ?_⟩
    · rw [← h.next, List.set_eq_take_append_cons_drop, if_pos hlt]
      simp [List.take_append, List.take_take, hlt.le]
    · rw [List.drop_set_of_lt (Nat.lt_succ_of_le h.written), hunread]
    · rw [List.length_set, h.length]

theorem inStep_foldl (remaining ordered : List InvocationRecordV1) (emitted : List String) :
    ∀ k ≤ remaining.length, InStep remaining k
      ((List.range k).foldl TracePass.visit ⟨remaining, 0, ordered, emitted, false⟩)
      ((remaining.take k).foldl (ParentOrder.visit (·.invocationID) InvocationRecordV1.parent)
        ⟨ordered, emitted, [], false⟩) := by
  intro k
  induction k with
  | zero => exact fun _ => ⟨rfl, rfl, rfl, rfl, le_refl _, rfl, rfl⟩
  | succ k ih =>
      intro hk
      have hget : remaining[k]? = some (remaining.get ⟨k, hk⟩) := List.getElem?_eq_getElem hk
      rw [List.range_succ, List.foldl_append, List.take_add_one, hget, Option.toList_some,
        List.foldl_append]
      exact (ih (Nat.le_of_succ_le hk)).visit hget

/-- The in-place pass is the pass. -/
theorem tracePass_inStep (remaining ordered : List InvocationRecordV1) (emitted : List String) :
    InStep remaining remaining.length (tracePass remaining ordered emitted)
      (pass (·.invocationID) InvocationRecordV1.parent remaining ordered emitted) := by
  have h := inStep_foldl remaining ordered emitted remaining.length (le_refl _)
  rwa [List.take_length] at h

theorem orderLoop_eq : ∀ (fuel : Nat) (remaining ordered : List InvocationRecordV1)
    (emitted : List String), orderLoop fuel remaining ordered emitted
      = order (·.invocationID) InvocationRecordV1.parent fuel remaining ordered emitted
  | fuel, [], ordered, emitted => by cases fuel <;> rfl
  | 0, _ :: _, _, _ => rfl
  | fuel + 1, r :: remaining, ordered, emitted => by
      have h := tracePass_inStep (r :: remaining) ordered emitted
      simp only [orderLoop, order, h.progress, h.next, h.ordered, h.emitted,
        orderLoop_eq fuel]

/-! ## The read -/

/-- The projections of one workspace and trace,
`ORDER BY created_at ASC, invocation_id ASC`. -/
def traceRows (s : Ledger) (workspaceID traceID : String) : List InvocationRow :=
  (s.invocations.filter fun r => r.workspaceID = workspaceID ∧ r.traceID = traceID).insertionSort
    fun a b => a.createdAt < b.createdAt
      ∨ (a.createdAt = b.createdAt ∧ a.invocationID ≤ b.invocationID)

/-- What a row reads as. -/
def readRow (p : InvocationRow) : InvocationRecordV1 :=
  let provenance := (assignReleaseProvenance p.agentReleaseID p.agentCardDigest).getD ("", "")
  { invocationID := p.invocationID
    rootTaskID := p.rootTaskID
    parentInvocationID := p.parentInvocationID.getD ""
    traceID := p.traceID
    caller := ⟨p.callerType, p.callerID⟩
    workspaceID := p.workspaceID
    targetAgentID := p.targetAgentID
    agentCardVersion := p.agentCardVersion
    agentReleaseID := provenance.1
    agentCardDigest := provenance.2
    capability := p.capability
    status := p.status
    latencyMS := p.latencyMS
    errorCode := p.errorCode
    createdAt := p.createdAt
    updatedAt := p.updatedAt }

theorem eq_readRow {p : InvocationRow} {r : InvocationRecordV1} (h : scanProjection p = some r) :
    r = readRow p := by
  unfold scanProjection scanContext at h
  unfold readRow
  cases hp : assignReleaseProvenance p.agentReleaseID p.agentCardDigest with
  | none => simp [hp] at h
  | some provenance =>
      simp only [hp, Option.bind_eq_bind, Option.bind_some, Option.some.injEq] at h
      rw [← h]
      rfl

theorem mapM_scanProjection {rows : List InvocationRow}
    (h : ∀ p ∈ rows, scanProjection p = some (readRow p)) :
    rows.mapM scanProjection = some (rows.map readRow) := by
  induction rows with
  | nil => rfl
  | cons p rows ih =>
      rw [List.forall_mem_cons] at h
      simp [List.mapM_cons, h.1, ih h.2]

/-- The stored records of one workspace and trace, oldest first. -/
def records (s : Ledger) (workspaceID traceID : String) : List InvocationRecordV1 :=
  (s.invocations.filter fun r => r.workspaceID = workspaceID ∧ r.traceID = traceID).map readRow

theorem records_perm (s : Ledger) (workspaceID traceID : String) :
    ((s.traceRows workspaceID traceID).map readRow).Perm (s.records workspaceID traceID) :=
  (List.perm_insertionSort _ _).map readRow

theorem Lineage.parentsFirst {s : Ledger} (hl : s.Lineage) :
    ParentsFirst (fun p : InvocationRow => p.invocationID) (fun p => p.parentInvocationID)
      s.invocations := by
  intro older p newer hsplit k hk
  have hk' : p.parentInvocationID = some k := hk
  obtain ⟨q, hq, hchild, -⟩ := hl older p newer hsplit (by rw [hk']; exact Option.some_ne_none _)
  rw [← Option.some.inj (hchild.parentInvocationID.symm.trans hk')]
  exact List.mem_map_of_mem hq

/-- The outcomes a reader of a trace is promised: its absence, or all of
it in parent order. -/
inductive TraceRead [Semver] (s : Ledger) (workspaceID traceID : String) :
    Except LedgerError TraceResponseV1 → Prop where
  | notFound
      (habsent : ∀ p ∈ s.invocations, ¬(p.workspaceID = workspaceID ∧ p.traceID = traceID)) :
      TraceRead s workspaceID traceID (.error .notFound)
  | found (invocations : List InvocationRecordV1)
      (hstored : ∃ p ∈ s.invocations, p.workspaceID = workspaceID ∧ p.traceID = traceID)
      (hcomplete : (invocations.map some).Perm ((s.invocations.filter fun r =>
        r.workspaceID = workspaceID ∧ r.traceID = traceID).map scanProjection))
      (honce : (invocations.map (·.invocationID)).Nodup)
      (hparents : ParentsFirst (·.invocationID) InvocationRecordV1.parent invocations)
      (hvalid : validateTraceResponseV1 workspaceID traceID ⟨traceID, invocations⟩ = .ok ()) :
      TraceRead s workspaceID traceID (.ok ⟨traceID, invocations⟩)

section Trace

variable [Semver]

/-- `Store.GetTrace`. -/
def getTrace (s : Ledger) (workspaceID traceID : String) : Except LedgerError TraceResponseV1 := do
  let projections ← orDependency "scan Trace projection"
    ((s.traceRows workspaceID traceID).mapM scanProjection)
  require (projections ≠ []) .notFound
  let ordered ← orDependency "order stored Trace" (orderTraceProjections projections)
  orFail (.dependency "validate stored Trace")
    (validateTraceResponseV1 workspaceID traceID ⟨traceID, ordered⟩)
  pure ⟨traceID, ordered⟩

theorem History.record_eq (h : History) : h.record = readRow h.projection :=
  eq_readRow h.scanProjection_projection

theorem History.readRow_parent (h : History) :
    (readRow h.projection).parent = h.projection.parentInvocationID := by
  have hcol : h.projection.parentInvocationID = nullableText h.context.parentInvocationID := rfl
  rw [← h.record_eq, hcol]
  rfl

/-- A stored projection is a valid record unless one of its times is the
zero time. -/
theorem History.record_valid_iff (h : History) :
    validateInvocationRecordV1 h.record = .ok () ↔
      h.projection.createdAt ≠ 0 ∧ h.projection.updatedAt ≠ 0 := by
  refine validateInvocationRecordV1_of_schema h.first.schema.context
    h.last.form.status_known h.last.schema.latencyMS ?_
  intro code hcode
  obtain ⟨err, herr, rfl⟩ := Option.map_eq_some_iff.mp hcode
  rw [(h.last.schema.error err herr).message]
  rfl

variable {s : Ledger} {workspaceID traceID : String} {r : InvocationRecordV1}

section Tracked

variable (hs : s.Tracked)

include hs

theorem mapM_traceRows (workspaceID traceID : String) :
    (s.traceRows workspaceID traceID).mapM scanProjection
      = some ((s.traceRows workspaceID traceID).map readRow) := by
  refine mapM_scanProjection fun p hp => ?_
  have hmem := (List.perm_insertionSort _ _).mem_iff.mp hp
  obtain ⟨h, rfl, -⟩ := hs.history p (List.mem_filter.mp hmem).1
  rw [← h.record_eq]
  exact h.scanProjection_projection

theorem Lineage.childOf (hl : s.Lineage) {p q : InvocationRow} (hp : p ∈ s.invocations)
    (hq : q ∈ s.invocations) (hparent : p.parentInvocationID = some q.invocationID) :
    ChildOf p.toContextColumns q.toContextColumns := by
  obtain ⟨older, newer, hsplit⟩ := List.append_of_mem hp
  obtain ⟨q', hq', hchild, -⟩ := hl older p newer hsplit
    (by rw [hparent]; exact Option.some_ne_none _)
  have hid : q.invocationID = q'.invocationID :=
    Option.some.inj (hparent.symm.trans hchild.parentInvocationID)
  have hmem : q' ∈ s.invocations := by
    rw [hsplit]
    exact List.mem_append_left _ hq'
  rw [hs.unique hq hmem hid]
  exact hchild

/-- Insertion order is parent order, and a parent is in the trace of its
child. -/
theorem records_parentsFirst (hl : s.Lineage) (workspaceID traceID : String) :
    ParentsFirst (·.invocationID) InvocationRecordV1.parent (s.records workspaceID traceID) := by
  refine ParentsFirst.map (hl.parentsFirst.filter _ ?_) (fun _ _ => rfl) ?_
  · intro p hp q hq hpair hparent
    have hchild := hl.childOf hs hp hq hparent
    simpa only [decide_eq_true_eq, hchild.workspaceID, hchild.traceID] using hpair
  · intro p hp
    obtain ⟨h, rfl, -⟩ := hs.history p (List.mem_filter.mp hp).1
    exact h.readRow_parent

theorem mem_records (hr : r ∈ s.records workspaceID traceID) :
    ∃ h : History, r = h.record ∧ h.projection ∈ s.invocations
      ∧ r.workspaceID = workspaceID ∧ r.traceID = traceID := by
  obtain ⟨p, hp, rfl⟩ := List.mem_map.mp hr
  obtain ⟨hmem, hpair⟩ := List.mem_filter.mp hp
  obtain ⟨h, rfl, -⟩ := hs.history p hmem
  exact ⟨h, h.record_eq.symm, hmem, of_decide_eq_true hpair⟩

theorem records_nodup (workspaceID traceID : String) :
    ((s.records workspaceID traceID).map (·.invocationID)).Nodup := by
  unfold records
  rw [List.map_map]
  exact (hs.ids.sublist ((List.filter_sublist (p := _)).map _))

/-- The read, once its ordering is known to succeed. -/
theorem getTrace_eq (hl : s.Lineage) (workspaceID traceID : String) :
    ∃ out, out.Perm (s.records workspaceID traceID)
      ∧ ParentsFirst (·.invocationID) InvocationRecordV1.parent out
      ∧ s.getTrace workspaceID traceID =
        if out = [] then .error .notFound
        else (orFail (.dependency "validate stored Trace")
          (validateTraceResponseV1 workspaceID traceID ⟨traceID, out⟩)).map
            fun _ => ⟨traceID, out⟩ := by
  obtain ⟨out, hout, hperm, hparents⟩ := order_spec (records_parentsFirst hs hl workspaceID traceID)
    _ _ [] [] (le_refl _) (records_perm s workspaceID traceID) parentsFirst_nil (by simp)
  have horder : orderTraceProjections ((s.traceRows workspaceID traceID).map readRow) = some out :=
    (orderLoop_eq ..).trans hout
  refine ⟨out, hperm, hparents, ?_⟩
  have hnil : (s.traceRows workspaceID traceID).map readRow = [] ↔ out = [] := by
    rw [← List.length_eq_zero_iff, ← List.length_eq_zero_iff,
      (records_perm s workspaceID traceID).length_eq, hperm.length_eq]
  unfold getTrace
  simp only [mapM_traceRows hs, horder, orDependency, ok_bind, ne_eq, hnil]
  by_cases h : out = []
  · rw [if_pos h, require_of_not (not_not.mpr h)]
    rfl
  · rw [if_neg h, require_ok_iff.mpr h]
    rfl

/-- Validation refuses only the zero time. -/
theorem validateTraceResponseV1_iff {out : List InvocationRecordV1} (hne : out ≠ [])
    (hperm : out.Perm (s.records workspaceID traceID))
    (hparents : ParentsFirst (·.invocationID) InvocationRecordV1.parent out)
    (hroot : ∀ r ∈ out, ∀ r' ∈ out, r.parent = none → r'.parent = none →
      r.rootTaskID = r'.rootTaskID)
    (hinherit : ∀ r ∈ out, ∀ r' ∈ out, r.parent = some r'.invocationID →
      r.rootTaskID = r'.rootTaskID) :
    validateTraceResponseV1 workspaceID traceID ⟨traceID, out⟩ = .ok () ↔
      ∀ r ∈ out, r.createdAt ≠ 0 ∧ r.updatedAt ≠ 0 := by
  have hrecord : ∀ r ∈ out, (validateInvocationRecordV1 r = .ok () ↔
      r.createdAt ≠ 0 ∧ r.updatedAt ≠ 0) := by
    intro r hr
    obtain ⟨h, rfl, -⟩ := mem_records hs (hperm.mem_iff.mp hr)
    exact h.record_valid_iff
  obtain ⟨first, rest, rfl⟩ := List.exists_cons_of_ne_nil hne
  have hval : validateTraceResponseV1 workspaceID traceID ⟨traceID, first :: rest⟩ = .ok () ↔
      ∃ ids, (first :: rest).foldlM (checkTraceRecord workspaceID traceID first.rootTaskID) []
        = .ok ids := by
    unfold validateTraceResponseV1
    simp only [check_bind_ok_iff, require_ok_iff, true_and]
    rw [bind_ok_iff]
    exact ⟨fun ⟨ids, h, _⟩ => ⟨ids, h⟩, fun ⟨ids, h⟩ => ⟨ids, h, rfl⟩⟩
  rw [hval]
  constructor
  · rintro ⟨ids, h⟩ r hr
    exact (hrecord r hr).mp (valid_of_foldlM_checkTraceRecord h r hr)
  · intro htimes
    -- the first record has no parent, so its root task is everyone's
    have hfirst : first.parent = none := by
      cases hp : first.parent with
      | none => rfl
      | some k => exact absurd (hparents [] first rest rfl k hp) List.not_mem_nil
    have hsame : ∀ r ∈ first :: rest, r.rootTaskID = first.rootTaskID :=
      hparents.induction (fun r hr hp => hroot r hr first (List.mem_cons_self ..) hp hfirst)
        fun r hr r' hr' hp ih => (hinherit r hr r' hr' hp).trans ih
    refine foldlM_checkTraceRecord_ok (fun r hr => (hrecord r hr).mpr (htimes r hr)) ?_ hsame ?_ ?_
    · intro r hr
      obtain ⟨h, -, -, hpair⟩ := mem_records hs (hperm.mem_iff.mp hr)
      exact hpair
    · exact (hperm.map _).nodup_iff.mpr (records_nodup hs workspaceID traceID)
    · intro older r newer hsplit k hk
      exact .inl (hparents older r newer hsplit k hk)

/-- The root tasks of a trace, in terms of its rows. -/
theorem records_rootTask (hl : s.Lineage)
    (hroot : ∀ p ∈ s.invocations, ∀ q ∈ s.invocations,
      p.workspaceID = workspaceID ∧ p.traceID = traceID →
      q.workspaceID = workspaceID ∧ q.traceID = traceID →
        p.parentInvocationID = none → q.parentInvocationID = none → p.rootTaskID = q.rootTaskID)
    {r' : InvocationRecordV1} (hr : r ∈ s.records workspaceID traceID)
    (hr' : r' ∈ s.records workspaceID traceID) :
    (r.parent = none → r'.parent = none → r.rootTaskID = r'.rootTaskID)
      ∧ (r.parent = some r'.invocationID → r.rootTaskID = r'.rootTaskID) := by
  obtain ⟨h, rfl, hmem, hpair⟩ := mem_records hs hr
  obtain ⟨h', rfl, hmem', hpair'⟩ := mem_records hs hr'
  rw [h.record_eq, h'.record_eq, h.readRow_parent, h'.readRow_parent]
  exact ⟨hroot _ hmem _ hmem' hpair hpair', fun hp => (hl.childOf hs hmem hmem' hp).rootTaskID⟩

theorem getTrace_ne_order (hl : s.Lineage) (workspaceID traceID : String) :
    s.getTrace workspaceID traceID ≠ .error (.dependency "order stored Trace") := by
  obtain ⟨out, -, -, heq⟩ := getTrace_eq hs hl workspaceID traceID
  rw [heq]
  split_ifs
  · simp
  · cases validateTraceResponseV1 workspaceID traceID ⟨traceID, out⟩ <;> simp [orFail, Except.map]

theorem getTrace_notFound_iff (hl : s.Lineage) (workspaceID traceID : String) :
    s.getTrace workspaceID traceID = .error .notFound ↔
      ∀ p ∈ s.invocations, ¬(p.workspaceID = workspaceID ∧ p.traceID = traceID) := by
  obtain ⟨out, hperm, -, heq⟩ := getTrace_eq hs hl workspaceID traceID
  have hnil : out = [] ↔ ∀ p ∈ s.invocations,
      ¬(p.workspaceID = workspaceID ∧ p.traceID = traceID) := by
    rw [← List.length_eq_zero_iff, hperm.length_eq, List.length_eq_zero_iff, records,
      List.map_eq_nil_iff, List.filter_eq_nil_iff]
    simp only [decide_eq_true_eq]
  rw [heq, ← hnil]
  split_ifs with h
  · simp [h]
  · cases validateTraceResponseV1 workspaceID traceID ⟨traceID, out⟩ <;>
      simp [orFail, Except.map, h]

end Tracked

/-- **Trace reads.** In every reachable ledger a trace is reported
missing exactly when it is, and its ordering never fails. If its roots
share a root task, the read is complete exactly when no projection of the
trace carries the zero time. -/
theorem getTrace_iff (calls : List InvocationEventV03) (workspaceID traceID : String)
    (hroot : ∀ p ∈ (appendAll calls).invocations, ∀ q ∈ (appendAll calls).invocations,
      p.workspaceID = workspaceID ∧ p.traceID = traceID →
      q.workspaceID = workspaceID ∧ q.traceID = traceID →
      p.parentInvocationID = none → q.parentInvocationID = none → p.rootTaskID = q.rootTaskID) :
    ((appendAll calls).getTrace workspaceID traceID = .error .notFound ↔
        ∀ p ∈ (appendAll calls).invocations,
          ¬(p.workspaceID = workspaceID ∧ p.traceID = traceID))
      ∧ (appendAll calls).getTrace workspaceID traceID
        ≠ .error (.dependency "order stored Trace")
      ∧ (TraceRead (appendAll calls) workspaceID traceID
          ((appendAll calls).getTrace workspaceID traceID) ↔
        ∀ p ∈ (appendAll calls).invocations, p.workspaceID = workspaceID ∧ p.traceID = traceID →
          p.createdAt ≠ 0 ∧ p.updatedAt ≠ 0) := by
  have hs := appendAll_tracked calls
  have hl := appendAll_lineage calls
  refine ⟨getTrace_notFound_iff hs hl .., getTrace_ne_order hs hl _ _, ?_⟩
  obtain ⟨out, hperm, hparents, heq⟩ := getTrace_eq hs hl workspaceID traceID
  have htimes : (∀ r ∈ out, r.createdAt ≠ 0 ∧ r.updatedAt ≠ 0) ↔
      ∀ p ∈ (appendAll calls).invocations, p.workspaceID = workspaceID ∧ p.traceID = traceID →
        p.createdAt ≠ 0 ∧ p.updatedAt ≠ 0 := by
    simp only [hperm.mem_iff, records, List.forall_mem_map, List.mem_filter, decide_eq_true_eq,
      and_imp]
    rfl
  rw [heq, ← htimes]
  by_cases hne : out = []
  · rw [if_pos hne]
    refine iff_of_true (.notFound ?_) (by simp [hne])
    rw [← getTrace_notFound_iff hs hl, heq, if_pos hne]
  · have hsame := fun r (hr : r ∈ out) r' (hr' : r' ∈ out) =>
      records_rootTask hs hl hroot (hperm.mem_iff.mp hr) (hperm.mem_iff.mp hr')
    have hvalid := validateTraceResponseV1_iff hs hne hperm hparents
      (fun r hr r' hr' => (hsame r hr r' hr').1) fun r hr r' hr' => (hsame r hr r' hr').2
    rw [if_neg hne, ← hvalid]
    cases hv : validateTraceResponseV1 workspaceID traceID ⟨traceID, out⟩ with
    | error err => exact iff_of_false (nofun) (by simp)
    | ok u =>
        refine iff_of_true (.found out ?_ ?_ ?_ hparents hv) rfl
        · obtain ⟨r, hr⟩ := List.exists_mem_of_ne_nil out hne
          obtain ⟨h, rfl, hmem, hpair⟩ := mem_records hs (hperm.mem_iff.mp hr)
          exact ⟨h.projection, hmem, hpair⟩
        · refine (hperm.map some).trans (List.Perm.of_eq ?_)
          rw [records, List.map_map]
          refine List.map_congr_left fun p hp => (?_ : some (readRow p) = scanProjection p)
          obtain ⟨h, rfl, -⟩ := hs.history p (List.mem_filter.mp hp).1
          rw [h.scanProjection_projection, h.record_eq]
        · exact (hperm.map _).nodup_iff.mpr (records_nodup hs workspaceID traceID)

end Trace

/-- An invocation at the zero time of Go. -/
def zeroTimeEvent : InvocationEventV03 :=
  { offsetEvent with occurredAt := "0001-01-01T00:00:00Z" }

/-- The invocation is committed, and its trace cannot be read. -/
theorem zeroTimeEvent_unreadable :
    letI := Semver.only ["1.0.0"]
    (appendAll [zeroTimeEvent]).invocations.length = 1
      ∧ (appendAll [zeroTimeEvent]).getTrace "workspace-1" "trace-1"
        = .error (.dependency "validate stored Trace") := by
  decide +kernel

/-- A parent that is running and its child, created at the same time and
with the smaller ID. -/
def nestedEvents : List InvocationEventV03 :=
  let at0 := { offsetEvent with occurredAt := "2025-01-01T00:00:00Z", invocationID := "inv-2" }
  [at0,
    { at0 with eventID := "event-2", sequence := 1, type := .routing, status := .routing },
    { at0 with eventID := "event-3", sequence := 2, type := .started, status := .running },
    { at0 with
      eventID := "event-4", invocationID := "inv-1", parentInvocationID := "inv-2"
      caller := ⟨.agent, "agent-1"⟩, targetAgentID := "agent-2" }]

theorem getTrace_nestedEvents :
    letI := Semver.only ["1.0.0"]
    (appendAll nestedEvents).invocations.length = 2
      ∧ TraceRead (appendAll nestedEvents) "workspace-1" "trace-1"
        ((appendAll nestedEvents).getTrace "workspace-1" "trace-1") := by
  let _ := Semver.only ["1.0.0"]
  have hrows : (appendAll nestedEvents).invocations.length = 2
      ∧ ∀ p ∈ (appendAll nestedEvents).invocations,
        p.rootTaskID = "task-1" ∧ p.createdAt ≠ 0 ∧ p.updatedAt ≠ 0 := by
    decide +kernel
  exact ⟨hrows.1, (getTrace_iff nestedEvents "workspace-1" "trace-1" fun p hp q hq _ _ _ _ =>
    (hrows.2 p hp).1.trans (hrows.2 q hq).1.symm).2.2.mpr fun p hp _ => (hrows.2 p hp).2⟩

end Ledger

end Nekiro
