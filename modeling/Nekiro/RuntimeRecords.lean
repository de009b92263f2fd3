import Nekiro.RuntimeSequence

/-!
# Projections and the responses that show them

`InvocationRecordV1` is the stored projection of an invocation. The
checks here are those of `runtime_contracts_validation.go` on it: alone
(`validateInvocationRecordV1`), next to its events
(`validateInvocationDetailResponseV1`), as the parent of a new
invocation (`validateNestedInvocationCorrelation`), and in the lineage
of a trace (`validateTraceResponseV1`). Each has one inversion lemma.
-/

namespace Nekiro

open Guard

structure InvocationRecordV1 extends InvocationContext where
  status : InvocationStatus
  latencyMS : Option Int
  /-- No error is the empty code. -/
  errorCode : Option PlatformErrorCode
  createdAt : Time
  updatedAt : Time
deriving Repr, DecidableEq

structure InvocationDetailResponseV1 where
  invocation : InvocationRecordV1
  events : List InvocationEventV03
deriving Repr, DecidableEq

structure TraceResponseV1 where
  traceID : String
  invocations : List InvocationRecordV1
deriving Repr, DecidableEq

/-- The parent of a projection, if it has one. -/
def InvocationRecordV1.parent (r : InvocationRecordV1) : Option String :=
  if r.parentInvocationID = "" then none else some r.parentInvocationID

theorem InvocationRecordV1.parent_mem {r : InvocationRecordV1} (h : r.parentInvocationID ≠ "") :
    r.parentInvocationID ∈ r.parent :=
  if_neg h

/-! ## Nested invocations -/

def validateNestedInvocationCorrelation (parent : InvocationRecordV1)
    (child : InvocationEventV03) : Except ContractError Unit := do
  require (parent.status = .running) (.message "nested Invocation parent must be running")
  require (child.type = .created ∧ child.status = .pending ∧ child.sequence = 0)
    (.message "nested Invocation child must begin with created/pending sequence zero")
  require (child.parentInvocationID = parent.invocationID
      ∧ child.invocationID ≠ parent.invocationID)
    (.message "nested Invocation parent identity is invalid")
  require (child.rootTaskID = parent.rootTaskID ∧ child.traceID = parent.traceID
      ∧ child.workspaceID = parent.workspaceID)
    (.message "nested Invocation lineage correlation changed")
  require (child.caller.type = .agent ∧ child.caller.id = parent.targetAgentID)
    (.message "nested Invocation caller does not match parent target Agent")

/-- What a child inherits from its parent. -/
@[mk_iff]
structure InvocationContext.ChildOf (child parent : InvocationContext) : Prop where
  parentInvocationID : child.parentInvocationID = parent.invocationID
  distinct : child.invocationID ≠ parent.invocationID
  rootTaskID : child.rootTaskID = parent.rootTaskID
  traceID : child.traceID = parent.traceID
  workspaceID : child.workspaceID = parent.workspaceID
  caller : child.caller = ⟨.agent, parent.targetAgentID⟩

theorem validateNestedInvocationCorrelation_ok_iff {parent : InvocationRecordV1}
    {child : InvocationEventV03} :
    validateNestedInvocationCorrelation parent child = .ok () ↔
      parent.status = .running ∧ child.type = .created ∧ child.status = .pending
        ∧ child.sequence = 0
        ∧ child.toInvocationContext.ChildOf parent.toInvocationContext := by
  have hcaller : child.caller = ⟨.agent, parent.targetAgentID⟩ ↔
      child.caller.type = .agent ∧ child.caller.id = parent.targetAgentID := by
    cases child.caller
    simp
  unfold validateNestedInvocationCorrelation
  simp only [check_bind_ok_iff, require_ok_iff, InvocationContext.childOf_iff, hcaller]
  grind

/-! ## Projections -/

/-- An identifier that may be absent. -/
def validateOptionalIdentifier (name value : String) : Except ContractError Unit :=
  if value = "" then .ok () else validateSafeContractIdentifier name value

theorem validateOptionalIdentifier_of_schema {name value : String}
    (h : value = "" ∨ safeIdentifier value) : validateOptionalIdentifier name value = .ok () := by
  unfold validateOptionalIdentifier
  rcases h with h | h
  · rw [if_pos h]
  · rw [if_neg (safeIdentifier_ne_empty h)]
    exact require_ok_iff.mpr (safeIdentifier_iff.mp h)

section Contracts

variable [Semver]

/-- The source checks the identifiers in map order, which Go leaves
open; only the text of the error depends on it. -/
def validateInvocationRecordV1 (record : InvocationRecordV1) : Except ContractError Unit := do
  validateInvocationReleaseProvenance record.agentReleaseID record.agentCardDigest
  validateSafeContractIdentifier "invocation id" record.invocationID
  validateSafeContractIdentifier "root task id" record.rootTaskID
  validateSafeContractIdentifier "workspace id" record.workspaceID
  validateSafeContractIdentifier "target agent id" record.targetAgentID
  validateSafeContractIdentifier "capability" record.capability
  validateSafeContractIdentifier "caller id" record.caller.id
  validateOptionalIdentifier "parent invocation id" record.parentInvocationID
  parseTraceID record.traceID
  require (record.caller.type.known = true) (.message "caller type is invalid")
  require (Semver.strictNewVersion record.agentCardVersion = true)
    (.message "agent card version is invalid")
  require (record.status.known = true) (.message "invocation status is invalid")
  require (nonNegative record.latencyMS) (.message "invocation latency must be non-negative")
  require (record.errorCode.all fun code => (platformErrorV4Messages code).isSome)
    (.message "invocation error code is invalid")
  require (record.createdAt.isZero = false ∧ record.updatedAt.isZero = false)
    (.message "invocation projection timestamps are required")

variable {record : InvocationRecordV1} {v v' : RuntimeInvocationSequenceValidator}
  {workspaceID traceID rootTaskID : String} {identities : List String} {l : List InvocationRecordV1}

/-- A projection with the context, the counters and the code of valid
events passes, unless one of its times is the zero time. -/
theorem validateInvocationRecordV1_of_schema (hctx : record.toInvocationContext.Schema)
    (hstatus : record.status.known = true) (hlatency : nonNegative record.latencyMS)
    (hcode : ∀ code ∈ record.errorCode, (platformErrorV4Messages code).isSome = true) :
    validateInvocationRecordV1 record = .ok () ↔ record.createdAt ≠ 0 ∧ record.updatedAt ≠ 0 := by
  have hcodes : (record.errorCode.all fun code => (platformErrorV4Messages code).isSome) =
      true := by
    cases h : record.errorCode with
    | none => rfl
    | some code => exact hcode code (by simp [h])
  unfold validateInvocationRecordV1
  simp only [check_bind_ok_iff, validateInvocationReleaseProvenance_of_schema hctx,
    validateOptionalIdentifier_of_schema hctx.parentInvocationID, validateSafeContractIdentifier,
    parseTraceID, require_ok_iff,
    safeIdentifier_iff.mp hctx.invocationID, safeIdentifier_iff.mp hctx.rootTaskID,
    safeIdentifier_iff.mp hctx.workspaceID, safeIdentifier_iff.mp hctx.targetAgentID,
    safeIdentifier_iff.mp hctx.capability, safeIdentifier_iff.mp hctx.callerID,
    safeIdentifier_iff.mp hctx.traceID, hctx.callerType, hctx.agentCardVersion.1, hstatus,
    hlatency, hcodes, true_and, Time.isZero, beq_eq_false_iff_ne]

/-- One round of the loop over the events of a response. -/
def acceptFor (record : InvocationRecordV1) (v : RuntimeInvocationSequenceValidator)
    (e : InvocationEventV03) : Except ContractError RuntimeInvocationSequenceValidator := do
  let v' ← v.accept e
  require (e.toInvocationContext = record.toInvocationContext)
    (.message "invocation projection context does not match its events")
  pure v'

def validateInvocationDetailResponseV1 (workspaceID : String)
    (detail : InvocationDetailResponseV1) : Except ContractError Unit := do
  validateInvocationRecordV1 detail.invocation
  require (detail.invocation.workspaceID = workspaceID)
    (.message "invocation projection Workspace does not match the authorized Workspace")
  match detail.events.getLast? with
  | none => throw (.message "invocation detail requires at least one committed event")
  | some last => do
      let _ ← detail.events.foldlM (acceptFor detail.invocation)
        RuntimeInvocationSequenceValidator.fresh
      require (detail.invocation.status = last.status)
        (.message "invocation projection status does not match its last event")

theorem acceptFor_ok_iff {e : InvocationEventV03} :
    acceptFor record v e = .ok v' ↔
      v.accept e = .ok v' ∧ e.toInvocationContext = record.toInvocationContext := by
  unfold acceptFor
  rw [bind_ok_iff]
  simp only [check_bind_ok_iff, require_ok_iff, pure, Except.pure, Except.ok.injEq]
  exact ⟨fun ⟨_, h, hctx, heq⟩ => heq ▸ ⟨h, hctx⟩, fun ⟨h, hctx⟩ => ⟨v', h, hctx, rfl⟩⟩

theorem foldlM_acceptFor_ok_iff {es : List InvocationEventV03} :
    es.foldlM (acceptFor record) v = .ok v' ↔
      v.acceptAll es = .ok v' ∧ ∀ e ∈ es, e.toInvocationContext = record.toInvocationContext := by
  induction es generalizing v with
  | nil => simp [RuntimeInvocationSequenceValidator.acceptAll]
  | cons e es ih =>
      have hcons : v.acceptAll (e :: es) = v.accept e >>= fun v => v.acceptAll es := rfl
      simp only [List.foldlM_cons, hcons, bind_ok_iff, acceptFor_ok_iff, List.forall_mem_cons, ih]
      constructor
      · rintro ⟨v1, ⟨hv1, hctx⟩, hrest, hall⟩
        exact ⟨⟨v1, hv1, hrest⟩, hctx, hall⟩
      · rintro ⟨⟨v1, hv1, hrest⟩, hctx, hall⟩
        exact ⟨v1, ⟨hv1, hctx⟩, hrest, hall⟩

theorem validateInvocationDetailResponseV1_ok_iff {detail : InvocationDetailResponseV1} :
    validateInvocationDetailResponseV1 workspaceID detail = .ok () ↔
      validateInvocationRecordV1 detail.invocation = .ok ()
        ∧ detail.invocation.workspaceID = workspaceID
        ∧ (∃ v, RuntimeInvocationSequenceValidator.fresh.acceptAll detail.events = .ok v)
        ∧ (∀ e ∈ detail.events, e.toInvocationContext = detail.invocation.toInvocationContext)
        ∧ ∃ last, detail.events.getLast? = some last ∧ detail.invocation.status = last.status := by
  unfold validateInvocationDetailResponseV1
  simp only [check_bind_ok_iff, require_ok_iff]
  refine and_congr_right fun _ => and_congr_right fun _ => ?_
  cases detail.events.getLast? with
  | none => simp
  | some last =>
      simp only [bind_ok_iff, foldlM_acceptFor_ok_iff, require_ok_iff]
      simp [and_assoc]

/-! ## Traces -/

/-- One round of the loop over the records of a trace; `identities` are
the invocations seen before. -/
def checkTraceRecord (workspaceID traceID rootTaskID : String) (identities : List String)
    (invocation : InvocationRecordV1) : Except ContractError (List String) := do
  validateInvocationRecordV1 invocation
  require (invocation.workspaceID = workspaceID ∧ invocation.traceID = traceID)
    (.message "trace Invocation is outside the authorized Workspace or Trace")
  require (invocation.rootTaskID = rootTaskID)
    (.message "trace response changes root Task within one lineage")
  require (invocation.invocationID ∉ identities)
    (.message "trace response repeats an Invocation")
  require (invocation.parentInvocationID ≠ "" →
      invocation.parentInvocationID ≠ invocation.invocationID)
    (.message "trace response contains a self-parent Invocation")
  require (invocation.parentInvocationID ≠ "" → invocation.parentInvocationID ∈ identities)
    (.message "trace response child must follow its existing parent")
  pure (invocation.invocationID :: identities)

def validateTraceResponseV1 (workspaceID traceID : String) (response : TraceResponseV1) :
    Except ContractError Unit := do
  require (response.traceID = traceID) (.message "trace response correlation changed")
  match response.invocations with
  | [] => throw (.message "trace response requires non-empty Invocation lineage")
  | first :: rest => do
      let _ ← (first :: rest).foldlM (checkTraceRecord workspaceID traceID first.rootTaskID) []
      pure ()

theorem checkTraceRecord_ok_iff {identities' : List String} {r : InvocationRecordV1} :
    checkTraceRecord workspaceID traceID rootTaskID identities r = .ok identities' ↔
      validateInvocationRecordV1 r = .ok ()
        ∧ (r.workspaceID = workspaceID ∧ r.traceID = traceID) ∧ r.rootTaskID = rootTaskID
        ∧ r.invocationID ∉ identities
        ∧ (r.parentInvocationID ≠ "" → r.parentInvocationID ≠ r.invocationID)
        ∧ (r.parentInvocationID ≠ "" → r.parentInvocationID ∈ identities)
        ∧ identities' = r.invocationID :: identities := by
  unfold checkTraceRecord
  simp only [check_bind_ok_iff, require_ok_iff, pure, Except.pure, Except.ok.injEq,
    eq_comm (a := identities')]

/-- The loop accepts distinct valid records of one trace and root that
are in parent order. -/
theorem foldlM_checkTraceRecord_ok (hvalid : ∀ r ∈ l, validateInvocationRecordV1 r = .ok ())
    (hpair : ∀ r ∈ l, r.workspaceID = workspaceID ∧ r.traceID = traceID)
    (hroot : ∀ r ∈ l, r.rootTaskID = rootTaskID)
    (hnodup : (identities ++ l.map (·.invocationID)).Nodup)
    (hparent : ∀ older r newer, l = older ++ r :: newer → ∀ k ∈ r.parent,
      k ∈ older.map (·.invocationID) ∨ k ∈ identities) :
    ∃ out, l.foldlM (checkTraceRecord workspaceID traceID rootTaskID) identities = .ok out := by
  induction l generalizing identities with
  | nil => exact ⟨identities, rfl⟩
  | cons r l ih =>
      have hmid : (r.invocationID :: (identities ++ l.map (·.invocationID))).Nodup :=
        List.perm_middle.nodup_iff.mp hnodup
      have hnew : r.invocationID ∉ identities := fun h =>
        (List.nodup_cons.mp hmid).1 (List.mem_append_left _ h)
      have hseen : r.parentInvocationID ≠ "" → r.parentInvocationID ∈ identities := fun hne =>
        (hparent [] r l rfl _ (r.parent_mem hne)).resolve_left List.not_mem_nil
      have hstep := checkTraceRecord_ok_iff.mpr ⟨hvalid r (by simp), hpair r (by simp),
        hroot r (by simp), hnew, fun hne heq => hnew (heq ▸ hseen hne), hseen, rfl⟩
      obtain ⟨out, hout⟩ := @ih (r.invocationID :: identities)
        (fun r' h => hvalid r' (by simp [h])) (fun r' h => hpair r' (by simp [h]))
        (fun r' h => hroot r' (by simp [h])) hmid (by
          rintro older r' newer rfl k hk
          rcases hparent (r :: older) r' newer rfl k hk with h | h
          · rcases List.mem_cons.mp h with rfl | h
            · exact .inr (List.mem_cons_self ..)
            · exact .inl h
          · exact .inr (List.mem_cons_of_mem _ h))
      exact ⟨out, by rw [List.foldlM_cons, hstep]; exact hout⟩

theorem valid_of_foldlM_checkTraceRecord {out : List String}
    (h : l.foldlM (checkTraceRecord workspaceID traceID rootTaskID) identities = .ok out) :
    ∀ r ∈ l, validateInvocationRecordV1 r = .ok () := by
  induction l generalizing identities with
  | nil => simp
  | cons r l ih =>
      rw [List.foldlM_cons, bind_ok_iff] at h
      obtain ⟨ids, hr, hl⟩ := h
      intro r' hr'
      rcases List.mem_cons.mp hr' with rfl | hmem
      · exact (checkTraceRecord_ok_iff.mp hr).1
      · exact ih hl r' hmem

end Contracts

end Nekiro
