import Nekiro.LedgerTrace

/-!
# Reads of invocations

`GetInvocation` and `GetInvocationByParentID` over the stored tables. In
every ledger that `Append` calls reach, a read tells exactly what was
appended to the invocation, and a later read tells the same and more
(`invocation_reads`). Above every invocation its parents are stored, up to
one that has none (`invocation_ancestors`).
-/

namespace Nekiro

namespace Ledger

open Guard LedgerTables RuntimeInvocationSequenceValidator

variable [Semver]

/-! ## Reads -/

/-- The read that both functions make of the row they found. -/
def readInvocation (s : Ledger) (noun : String) (found : Option InvocationRow)
    (workspaceID : InvocationRecordV1 → String) (invocationID : String) :
    Except LedgerError InvocationDetailResponseV1 :=
  match found with
  | none => .error .notFound
  | some row => do
      let invocation ← orDependency ("read " ++ noun ++ " projection") (scanProjection row)
      let events ← orDependency ("read " ++ noun ++ " events") (s.readEvents invocationID)
      orFail (.dependency ("validate stored " ++ noun ++ " detail"))
        (validateInvocationDetailResponseV1 (workspaceID invocation) ⟨invocation, events⟩)
      pure ⟨invocation, events⟩

/-- `Store.GetInvocation`. -/
def getInvocation (s : Ledger) (workspaceID invocationID : String) :
    Except LedgerError InvocationDetailResponseV1 :=
  s.readInvocation "Invocation"
    (s.invocations.find? fun r => r.workspaceID = workspaceID ∧ r.invocationID = invocationID)
    (fun _ => workspaceID) invocationID

/-- `Store.GetInvocationByParentID`. -/
def getInvocationByParentID (s : Ledger) (invocationID : String) :
    Except LedgerError InvocationDetailResponseV1 :=
  s.readInvocation "parent Invocation" (s.findProjection invocationID) (·.workspaceID) invocationID

/-- The answer of a read. -/
def History.detail (h : History) : InvocationDetailResponseV1 :=
  ⟨h.record, h.events.map StampedEvent.canonical⟩

/-- RFC 3339 can spell every time, and no time of the projection is zero. -/
def History.Readable (h : History) : Prop :=
  (∀ e ∈ h.events, 0 ≤ e.instant.utcYear ∧ e.instant.utcYear ≤ 9999)
    ∧ h.first.instant ≠ 0 ∧ h.last.instant ≠ 0

theorem History.detail_valid_iff (h : History) :
    validateInvocationDetailResponseV1 h.context.workspaceID h.detail = .ok () ↔ h.Readable := by
  have hlast : (h.events.map StampedEvent.canonical).getLast? = some h.last.canonical := by
    rw [List.getLast?_map, List.getLast?_eq_some_getLast h.nonempty]
    rfl
  have hcontext : ∀ e ∈ h.events.map StampedEvent.canonical,
      e.toInvocationContext = h.record.toInvocationContext :=
    List.forall_mem_map.mpr h.context_eq
  have haccepted : (∃ v, fresh.acceptAll (h.events.map StampedEvent.canonical) = .ok v) ↔
      ∀ e ∈ h.events, 0 ≤ e.instant.utcYear ∧ e.instant.utcYear ≤ 9999 := by
    simp only [acceptAll_ok_iff, h.admitted, true_and, exists_and_left, exists_eq, and_true,
      List.forall_mem_map, StampedEvent.canonical_valid_iff]
  rw [validateInvocationDetailResponseV1_ok_iff, detail, h.record_valid_iff, haccepted, hlast]
  constructor
  · rintro ⟨htimes, -, hyears, -⟩
    exact ⟨hyears, htimes⟩
  · rintro ⟨hyears, htimes⟩
    exact ⟨htimes, rfl, hyears, hcontext, _, rfl, rfl⟩

/-- What a reader of an invocation is promised: its absence, or all that was
appended to it, unless one of its times cannot be told. -/
inductive InvocationRead (s : Ledger) (named : InvocationRow → Prop) (id noun : String) :
    Except LedgerError InvocationDetailResponseV1 → Prop where
  | notFound (habsent : ∀ p ∈ s.invocations, ¬named p) :
      InvocationRead s named id noun (.error .notFound)
  | found (h : History) (hstored : h.projection ∈ s.invocations) (hnamed : named h.projection)
      (hrows : h.rows = s.rowsOf id) (hreadable : h.Readable) :
      InvocationRead s named id noun (.ok h.detail)
  | untold (h : History) (hstored : h.projection ∈ s.invocations) (hnamed : named h.projection)
      (hunreadable : ¬h.Readable) :
      InvocationRead s named id noun
        (.error (.dependency ("validate stored " ++ noun ++ " detail")))

theorem Tracked.invocationRead {s : Ledger} (hs : s.Tracked) {named : InvocationRow → Prop}
    [DecidablePred named] {id noun : String} {workspaceID : InvocationRecordV1 → String}
    (hid : ∀ p, named p → p.invocationID = id)
    (hworkspace : ∀ h : History, named h.projection →
      workspaceID h.record = h.context.workspaceID) :
    InvocationRead s named id noun
      (s.readInvocation noun (s.invocations.find? fun p => named p) workspaceID id) := by
  cases hfind : s.invocations.find? fun p => named p with
  | none =>
      exact .notFound fun p hp hnamed => List.find?_eq_none.mp hfind p hp (decide_eq_true hnamed)
  | some p =>
      have hp := List.mem_of_find?_eq_some hfind
      have hnamed : named p := by simpa using List.find?_some hfind
      obtain ⟨h, rfl, hrows⟩ := hs.history p hp
      rw [hid _ hnamed] at hrows
      rw [readInvocation, h.scanProjection_projection, hs.readEvents_eq hrows]
      simp only [orDependency, ok_bind, hworkspace h hnamed]
      change InvocationRead s named id noun (orFail _ (validateInvocationDetailResponseV1
        h.context.workspaceID h.detail) >>= fun _ => pure h.detail)
      have hvalid := h.detail_valid_iff
      cases hcheck : validateInvocationDetailResponseV1 h.context.workspaceID h.detail with
      | error e =>
          refine .untold h hp hnamed fun hreadable => ?_
          rw [← hvalid, hcheck] at hreadable
          cases hreadable
      | ok u => exact .found h hp hnamed hrows (by rw [← hvalid, hcheck])

/-! ## Rows are only added -/

theorem appendAll_rowsOf_prefix (calls later : List InvocationEventV03) (id : String) :
    (appendAll calls).rowsOf id <+: (appendAll (calls ++ later)).rowsOf id := by
  have hrun : appendAll (calls ++ later) = Transact.run append (appendAll calls) later :=
    Transact.run_append ..
  rw [hrun]
  refine (Transact.run_induction (P := fun s : Ledger => s.Tracked
    ∧ (appendAll calls).rowsOf id <+: s.rowsOf id) ?_
    ⟨appendAll_tracked calls, List.prefix_rfl⟩ later).2
  rintro s event s' ⟨hs, hprefix⟩ h
  obtain ⟨e, -, hstep⟩ := step_of_append hs h
  refine ⟨hstep.tracked hs, hprefix.trans ?_⟩
  rw [rowsOf, rowsOf, hstep.events, List.filter_append]
  exact List.prefix_append _ _

/-- A history whose rows begin with those of another begins with its events. -/
theorem History.canonical_prefix {h h' : History} (hrows : h.rows <+: h'.rows) :
    h.events.map StampedEvent.canonical <+: h'.events.map StampedEvent.canonical := by
  have hscan : ∀ g : History, g.rows.filterMap scanEvent = g.events.map StampedEvent.canonical := by
    intro g
    rw [rows, List.filterMap_map, ← List.filterMap_eq_map]
    exact List.filterMap_congr fun e _ => e.scanEvent_row
  rw [← hscan h, ← hscan h']
  exact hrows.filterMap _

theorem History.context_of_prefix {h h' : History} (hrows : h.rows <+: h'.rows) :
    h'.context = h.context := by
  obtain ⟨e, he, hcanonical⟩ := List.mem_map.mp ((History.canonical_prefix hrows).subset
    (List.mem_map_of_mem h.first_mem))
  rw [← h'.context_eq e he, ← e.canonical_toInvocationContext, hcanonical]
  rfl

/-- **Reads of an invocation.** In every reachable ledger both reads answer
with all that was appended to the invocation they name, the times in UTC, or
fail for a time that cannot be told. What `GetInvocation` answered once is
the beginning of every later answer. -/
theorem invocation_reads (calls : List InvocationEventV03) (workspaceID id : String) :
    InvocationRead (appendAll calls) (fun p => p.workspaceID = workspaceID ∧ p.invocationID = id)
        id "Invocation" ((appendAll calls).getInvocation workspaceID id)
      ∧ InvocationRead (appendAll calls) (fun p => p.invocationID = id) id "parent Invocation"
        ((appendAll calls).getInvocationByParentID id)
      ∧ ∀ later detail detail', (appendAll calls).getInvocation workspaceID id = .ok detail →
        (appendAll (calls ++ later)).getInvocation workspaceID id = .ok detail' →
        detail.events <+: detail'.events
          ∧ detail'.invocation.toInvocationContext = detail.invocation.toInvocationContext := by
  have hread : ∀ calls, InvocationRead (appendAll calls)
      (fun p => p.workspaceID = workspaceID ∧ p.invocationID = id) id "Invocation"
      ((appendAll calls).getInvocation workspaceID id) := fun calls =>
    (appendAll_tracked calls).invocationRead (fun _ h => h.2) fun _ h => h.1.symm
  refine ⟨hread calls, (appendAll_tracked calls).invocationRead (fun _ h => h) fun _ _ => rfl, ?_⟩
  intro later detail detail' hdetail hdetail'
  have hfirst := hread calls
  have hlater := hread (calls ++ later)
  rw [hdetail] at hfirst
  rw [hdetail'] at hlater
  cases hfirst with | found h _ _ hrows _ => ?_
  cases hlater with | found h' _ _ hrows' _ => ?_
  have hprefix : h.rows <+: h'.rows := by
    rw [hrows, hrows']
    exact appendAll_rowsOf_prefix calls later id
  exact ⟨History.canonical_prefix hprefix, History.context_of_prefix hprefix⟩

/-! ## Ancestors -/

/-- A child beside its parent. -/
def Under (child parent : InvocationRow) : Prop :=
  ChildOf child.toContextColumns parent.toContextColumns ∧ parent.createdAt ≤ child.createdAt

omit [Semver] in
theorem Lineage.ancestors {s : Ledger} (hl : s.Lineage) (n : Nat) :
    ∀ older p newer, older.length = n → s.invocations = older ++ p :: newer →
      ∃ ancestors, ancestors.reverse.Sublist older ∧ (p :: ancestors).IsChain Under
        ∧ ∀ root ∈ (p :: ancestors).getLast?, root.parentInvocationID = none := by
  -- the parent stands before the child, with fewer rows before it
  induction n using Nat.strong_induction_on with
  | _ n ih =>
      intro older p newer hlength hsplit
      by_cases hp : p.parentInvocationID = none
      · exact ⟨[], List.nil_sublist _, .singleton _, by simpa using hp⟩
      · obtain ⟨q, hq, hchild, hcreated, -⟩ := hl older p newer hsplit hp
        obtain ⟨before, after, rfl⟩ := List.append_of_mem hq
        obtain ⟨ancestors, hsublist, hchain, hroot⟩ := ih before.length
          (by simp at hlength; omega) before q (after ++ p :: newer) rfl (by simpa using hsplit)
        refine ⟨q :: ancestors, ?_, .cons_cons ⟨hchild, hcreated⟩ hchain, by simpa using hroot⟩
        rw [List.reverse_cons]
        exact hsublist.append (List.singleton_sublist.mpr List.mem_cons_self)

/-- **Ancestors.** Every stored invocation leads over stored parents, each
older in the tables than its child, to one without a parent, and its
workspace, root task and trace are those of each of them. -/
theorem invocation_ancestors (calls : List InvocationEventV03) :
    ∀ p ∈ (appendAll calls).invocations, ∃ ancestors : List InvocationRow,
      (p :: ancestors).reverse.Sublist (appendAll calls).invocations
        ∧ (p :: ancestors).IsChain Under ∧ (p :: ancestors).Nodup
        ∧ (∀ root ∈ (p :: ancestors).getLast?, root.parentInvocationID = none)
        ∧ ∀ q ∈ ancestors, q.workspaceID = p.workspaceID ∧ q.rootTaskID = p.rootTaskID
          ∧ q.traceID = p.traceID := by
  intro p hp
  obtain ⟨older, newer, hsplit⟩ := List.append_of_mem hp
  obtain ⟨ancestors, hsublist, hchain, hroot⟩ :=
    (appendAll_lineage calls).ancestors older.length older p newer rfl hsplit
  have hreverse : (p :: ancestors).reverse.Sublist (appendAll calls).invocations := by
    rw [hsplit, List.reverse_cons]
    exact hsublist.append (List.singleton_sublist.mpr List.mem_cons_self)
  refine ⟨ancestors, hreverse, hchain, ?_, hroot, ?_⟩
  · exact List.nodup_reverse.mp (hreverse.nodup (.of_map _ (appendAll_tracked calls).ids))
  · clear hsplit hsublist hreverse hroot hp
    induction ancestors generalizing p with
    | nil => simp
    | cons q ancestors ih =>
        obtain ⟨⟨hchild, -⟩, htail⟩ := List.isChain_cons_cons.mp hchain
        refine List.forall_mem_cons.mpr ⟨⟨hchild.workspaceID.symm, hchild.rootTaskID.symm,
          hchild.traceID.symm⟩, fun a ha => ?_⟩
        obtain ⟨hworkspace, hrootTask, htrace⟩ := ih q htail a ha
        exact ⟨hworkspace.trans hchild.workspaceID.symm, hrootTask.trans hchild.rootTaskID.symm,
          htrace.trans hchild.traceID.symm⟩

omit [Semver] in
/-- A child and its parent. -/
theorem invocation_ancestors_nested :
    letI := Semver.only ["1.0.0"]
    ∃ p ∈ (appendAll nestedEvents).invocations, p.parentInvocationID = some "inv-2"
      ∧ ∃ ancestors, (p :: ancestors).IsChain Under ∧ (p :: ancestors).Nodup := by
  let _ := Semver.only ["1.0.0"]
  obtain ⟨p, hp, hparent⟩ : ∃ p ∈ (appendAll nestedEvents).invocations,
      p.parentInvocationID = some "inv-2" := by
    decide +kernel
  obtain ⟨ancestors, -, hchain, hnodup, -⟩ := invocation_ancestors nestedEvents p hp
  exact ⟨p, hp, hparent, ancestors, hchain, hnodup⟩

end Ledger

end Nekiro
