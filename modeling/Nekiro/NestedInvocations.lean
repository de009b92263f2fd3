import Nekiro.DispatchHandler
import Nekiro.LedgerReads

/-!
# Nested invocations

`DeriveChildContext` makes the context of a child from the parent that was
read, for the agent that was authenticated. Others may append between that
read and the commit of the child, so the ledger looks at the parent again;
`nested_lineage` says what it can still refuse.
-/

namespace Nekiro

namespace Nested

open Guard Ledger Dispatch

/-- What the credential of an agent is bound to. -/
structure AuthenticatedAgent where
  workspaceID : String
  agentID : String

inductive NestedError where
  | parentNotFound
  | parentNotRunning
  | parentTargetMismatch
  | parentWorkspaceMismatch
  | generate

structure ChildContext where
  childInvocationID : String
  parentInvocation : InvocationRecordV1
  caller : Caller
  workspaceID : String
  rootTaskID : String
  traceID : String

/-- `DeriveChildContext`, with the bytes of `newInvocationID`; none if they
cannot be read. -/
def deriveChildContext (parent : InvocationDetailResponseV1) (authenticated : AuthenticatedAgent)
    (random : Option (List UInt8)) : Except NestedError ChildContext := do
  require (parent.invocation.invocationID ≠ "") .parentNotFound
  require (parent.invocation.status = .running) .parentNotRunning
  require (parent.invocation.targetAgentID = authenticated.agentID) .parentTargetMismatch
  require (parent.invocation.workspaceID = authenticated.workspaceID) .parentWorkspaceMismatch
  match random with
  | none => throw .generate
  | some data => pure {
      childInvocationID := "inv_" ++ Hex.encode data
      parentInvocation := parent.invocation
      caller := ⟨.agent, authenticated.agentID⟩
      workspaceID := parent.invocation.workspaceID
      rootTaskID := parent.invocation.rootTaskID
      traceID := parent.invocation.traceID }

def buildChildDispatchRequest (child : ChildContext) (targetAgentID capability : String)
    (input : Json.Bytes) (stream : Bool)
    (agentCardVersion agentReleaseID agentCardDigest : String) : DispatchInvocationRequestV1 where
  invocationID := child.childInvocationID
  rootTaskID := child.rootTaskID
  parentInvocationID := child.parentInvocation.invocationID
  traceID := child.traceID
  caller := child.caller
  workspaceID := child.workspaceID
  targetAgentID := targetAgentID
  agentCardVersion := agentCardVersion
  agentReleaseID := agentReleaseID
  agentCardDigest := agentCardDigest
  capability := capability
  input := input
  stream := stream

theorem deriveChildContext_ok {parent : InvocationDetailResponseV1}
    {authenticated : AuthenticatedAgent} {random : Option (List UInt8)} {child : ChildContext}
    (h : deriveChildContext parent authenticated random = .ok child) :
    parent.invocation.invocationID ≠ "" ∧ parent.invocation.targetAgentID = authenticated.agentID
      ∧ parent.invocation.workspaceID = authenticated.workspaceID
      ∧ ∃ id, child = ⟨id, parent.invocation, ⟨.agent, authenticated.agentID⟩,
        parent.invocation.workspaceID, parent.invocation.rootTaskID,
        parent.invocation.traceID⟩ := by
  simp only [deriveChildContext, check_bind_ok_iff, require_ok_iff] at h
  obtain ⟨hid, -, htarget, hworkspace, h⟩ := h
  cases random with
  | none => cases h
  | some data =>
      cases h
      exact ⟨hid, htarget, hworkspace, _, rfl⟩

/-- **Lineage of a child.** Whatever is appended after the parent was read,
it stays the parent that the authenticated agent works for, in the agent's
workspace. The ledger refuses the first event of the child as one of this
parent exactly when the parent does not run any more, is ahead of the event,
or has the ID that was drawn for the child; so a child is committed only
under a parent that runs. -/
theorem nested_lineage [Semver] (calls later : List InvocationEventV03) {parentID : String}
    {detail : InvocationDetailResponseV1} {authenticated : AuthenticatedAgent}
    {random : Option (List UInt8)} {child : ChildContext}
    (hread : (appendAll calls).getInvocationByParentID parentID = .ok detail)
    (hderive : deriveChildContext detail authenticated random = .ok child)
    (targetAgentID capability : String) (input : Json.Bytes) (stream : Bool)
    (version releaseID digest : String) (startedAt : Time) :
    let event := Env.createdEvent (buildChildDispatchRequest child targetAgentID capability input
      stream version releaseID digest) startedAt
    ∃ p, (appendAll (calls ++ later)).findProjection parentID = some p
      ∧ p.targetAgentID = authenticated.agentID ∧ p.workspaceID = authenticated.workspaceID
      ∧ (∀ t, (appendAll (calls ++ later)).checkParent event t = .ok () ↔
        p.status = .running ∧ p.updatedAt ≤ t ∧ child.childInvocationID ≠ parentID)
      ∧ ∀ s', (appendAll (calls ++ later)).append event = .ok s' → p.status = .running := by
  intro event
  obtain ⟨hne, htarget, hworkspace, id, rfl⟩ := deriveChildContext_ok hderive
  have hfound : InvocationRead (appendAll calls) (·.invocationID = parentID) parentID
      "parent Invocation" ((appendAll calls).getInvocationByParentID parentID) :=
    (appendAll_tracked calls).invocationRead (fun _ h => h) fun _ _ => rfl
  rw [hread] at hfound
  cases hfound with | found h _ hid hrows _ => ?_
  have hs := appendAll_tracked (calls ++ later)
  have hprefix := appendAll_rowsOf_prefix calls later parentID
  rw [← hrows] at hprefix
  rcases hs.rowsOf_cases parentID with ⟨-, hnil⟩ | ⟨h', hrows', hfind⟩
  · rw [hnil, List.prefix_nil, History.rows, List.map_eq_nil_iff] at hprefix
    exact absurd hprefix h.nonempty
  have hcontext : h'.record.toInvocationContext = h.record.toInvocationContext :=
    History.context_of_prefix (hrows' ▸ hprefix)
  have hparent : event.parentInvocationID = parentID := hid
  have hnested : event.parentInvocationID ≠ "" := hne
  have hchild : event.toInvocationContext.ChildOf h'.record.toInvocationContext ↔
      id ≠ parentID := by
    rw [hcontext]
    refine ⟨fun hchild => hid ▸ hchild.distinct, fun hdistinct => ?_⟩
    exact ⟨rfl, fun heq => hdistinct (heq.trans hid), rfl, rfl, rfl, congrArg _ htarget.symm⟩
  have hcheck : ∀ t, (appendAll (calls ++ later)).checkParent event t = .ok () ↔
      h'.projection.status = .running ∧ h'.projection.updatedAt ≤ t ∧ id ≠ parentID := by
    intro t
    rw [checkParent, if_neg hnested, lockProjection, hparent, hfind]
    simp only [h'.scanProjection_projection, orDependency, ok_bind, check_bind_ok_iff,
      orFail_ok_iff, validateNestedInvocationCorrelation_ok_iff, hchild, require_ok_iff]
    constructor
    · rintro ⟨⟨hrunning, -, -, -, hdistinct⟩, hle⟩
      exact ⟨hrunning, hle, hdistinct⟩
    · rintro ⟨hrunning, hle, hdistinct⟩
      exact ⟨⟨hrunning, rfl, rfl, rfl, hdistinct⟩, hle⟩
  refine ⟨h'.projection, hfind, ?_, ?_, hcheck, fun s' happend => ?_⟩
  · exact (congrArg InvocationContext.targetAgentID hcontext).trans htarget
  · exact (congrArg InvocationContext.workspaceID hcontext).trans hworkspace
  · obtain ⟨t, hchecks, -⟩ := bind_ok_iff.mp happend
    obtain ⟨t', -, hrest⟩ := bind_ok_iff.mp hchecks
    exact ((hcheck t').mp (check_bind_ok_iff.mp hrest).1).1

/-- The parent runs, and the agent that works for it calls another. -/
theorem nested_lineage_running :
    letI := Semver.only ["1.0.0"]
    ∃ detail child, (appendAll (nestedEvents.take 3)).getInvocationByParentID "inv-2" = .ok detail
      ∧ deriveChildContext detail ⟨"workspace-1", "agent-1"⟩ (some [7]) = .ok child
      ∧ ∃ p, (appendAll (nestedEvents.take 3)).findProjection "inv-2" = some p
        ∧ p.targetAgentID = "agent-1" := by
  let _ := Semver.only ["1.0.0"]
  have hfacts : ((appendAll (nestedEvents.take 3)).getInvocationByParentID "inv-2").toOption.any
      (fun detail => (deriveChildContext detail ⟨"workspace-1", "agent-1"⟩ (some [7])).isOk) := by
    decide +kernel
  cases hread : (appendAll (nestedEvents.take 3)).getInvocationByParentID "inv-2" with
  | error e =>
      rw [hread] at hfacts
      cases hfacts
  | ok detail =>
      rw [hread] at hfacts
      change (deriveChildContext detail _ _).isOk = true at hfacts
      cases hderive : deriveChildContext detail ⟨"workspace-1", "agent-1"⟩ (some [7]) with
      | error e =>
          rw [hderive] at hfacts
          cases hfacts
      | ok child =>
          obtain ⟨p, hp, htarget, -⟩ :=
            nested_lineage (nestedEvents.take 3) [] hread hderive "agent-2" "" [] false "" "" "" 0
          exact ⟨detail, child, rfl, hderive, p, hp, htarget⟩

end Nested

end Nekiro
