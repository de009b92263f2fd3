import Nekiro.RuntimeContracts

/-!
# The invocation lifecycle

`RuntimeInvocationSequenceValidator` accepts the events of one
invocation in order. Its `Accept` does two things that are independent
of each other: it validates the event on its own, and it steps a small
automaton over sequence number, context, status and chunk index.
`accept_ok_iff` separates them - `Admits` is the guard of the automaton
and `next` its step - and every later result about lifecycles goes
through that pair.

`acceptAll` is a fresh validator's run over a list. The projection
(`InvocationRecordV1`) and the response checks built on the validator
follow.
-/

namespace Nekiro

open Guard

/-! ## Transitions -/

def validRuntimeTransition (source : InvocationStatus) (eventType : EventType)
    (target : InvocationStatus) : Bool :=
  match source with
  | .pending =>
      (eventType == .routing && target == .routing)
        || ((eventType == .canceled || eventType == .timedOut) && eventType.text == target.text)
  | .routing =>
      (eventType == .started && target == .running)
        || ((eventType == .failed || eventType == .canceled || eventType == .timedOut)
          && eventType.text == target.text)
  | .running =>
      (eventType == .stream && target == .running)
        || ((eventType == .succeeded || eventType == .failed || eventType == .canceled
          || eventType == .timedOut) && eventType.text == target.text)
  | _ => false

/-- A terminal status has no transition. -/
theorem not_terminal_of_transition {source target : InvocationStatus} {eventType : EventType}
    (h : validRuntimeTransition source eventType target = true) :
    isRuntimeTerminalStatus source = false := by
  cases source <;> first | rfl | exact absurd h Bool.false_ne_true

def sameRuntimeInvocationContext (left right : InvocationContext) : Bool :=
  left.invocationID == right.invocationID && left.rootTaskID == right.rootTaskID
    && left.parentInvocationID == right.parentInvocationID && left.traceID == right.traceID
    && left.caller == right.caller && left.workspaceID == right.workspaceID
    && left.targetAgentID == right.targetAgentID
    && left.agentCardVersion == right.agentCardVersion
    && left.agentReleaseID == right.agentReleaseID
    && left.agentCardDigest == right.agentCardDigest
    && left.capability == right.capability

theorem sameRuntimeInvocationContext_iff {left right : InvocationContext} :
    sameRuntimeInvocationContext left right = true ↔ left = right := by
  cases left
  cases right
  simp [sameRuntimeInvocationContext, and_assoc]

/-! ## The sequence validator -/

structure RuntimeInvocationSequenceValidator where
  last : Option InvocationEventV03
  nextSequence : Int
  nextChunkIndex : Int
  terminal : Bool
deriving Repr, DecidableEq

namespace RuntimeInvocationSequenceValidator

def fresh : RuntimeInvocationSequenceValidator := ⟨none, 0, 0, false⟩

/-- The state after an accepted event. -/
def next (v : RuntimeInvocationSequenceValidator) (e : InvocationEventV03) :
    RuntimeInvocationSequenceValidator where
  last := some e
  nextSequence := v.nextSequence + 1
  nextChunkIndex := if e.type = .stream then v.nextChunkIndex + 1 else v.nextChunkIndex
  terminal := isRuntimeTerminalStatus e.status

/-- The branch of `Accept` on the previous event. -/
def continues (v : RuntimeInvocationSequenceValidator) (e : InvocationEventV03) :
    Except ContractError Unit :=
  match v.last with
  | none =>
      require (e.type = .created ∧ e.status = .pending)
        (.message "invocation lifecycle must begin with created/pending")
  | some last => do
      require (sameRuntimeInvocationContext last.toInvocationContext e.toInvocationContext = true)
        (.message "invocation lifecycle context changed")
      require (validRuntimeTransition last.status e.type e.status = true)
        (.message ("invalid Invocation transition " ++ last.status.text ++ " -> "
          ++ e.type.text ++ "/" ++ e.status.text))

section Accept

variable [Semver]

def accept (v : RuntimeInvocationSequenceValidator) (e : InvocationEventV03) :
    Except ContractError RuntimeInvocationSequenceValidator := do
  require (v.terminal = false) .sequenceTerminal
  validateInvocationEventV03 e
  require (e.sequence = v.nextSequence)
    (.message ("invocation event sequence must be " ++ toString v.nextSequence))
  continues v e
  require (e.type = .stream → e.chunkIndex = some v.nextChunkIndex)
    (.message ("invocation stream chunk index must be " ++ toString v.nextChunkIndex))
  pure (v.next e)

/-- A run over a list of events. -/
def acceptAll (v : RuntimeInvocationSequenceValidator) (es : List InvocationEventV03) :
    Except ContractError RuntimeInvocationSequenceValidator :=
  es.foldlM accept v

end Accept

/-- The guard of the automaton: everything `accept` asks of an event
except that the event is valid on its own. -/
@[mk_iff]
structure Admits (v : RuntimeInvocationSequenceValidator) (e : InvocationEventV03) : Prop where
  live : v.terminal = false
  sequence : e.sequence = v.nextSequence
  start : v.last = none → e.type = .created ∧ e.status = .pending
  context : ∀ last ∈ v.last, last.toInvocationContext = e.toInvocationContext
  transition : ∀ last ∈ v.last, validRuntimeTransition last.status e.type e.status = true
  chunk : e.type = .stream → e.chunkIndex = some v.nextChunkIndex

variable {v v' : RuntimeInvocationSequenceValidator} {e : InvocationEventV03}
  {es : List InvocationEventV03}

theorem continues_ok_iff :
    v.continues e = .ok () ↔
      (v.last = none → e.type = .created ∧ e.status = .pending)
        ∧ (∀ last ∈ v.last, last.toInvocationContext = e.toInvocationContext)
        ∧ ∀ last ∈ v.last, validRuntimeTransition last.status e.type e.status = true := by
  unfold continues
  cases v.last with
  | none => simp
  | some last =>
      simp [check_bind_ok_iff, sameRuntimeInvocationContext_iff]

theorem accept_ok_iff [Semver] :
    v.accept e = .ok v' ↔ validateInvocationEventV03 e = .ok () ∧ v.Admits e ∧ v' = v.next e := by
  unfold accept
  simp only [check_bind_ok_iff, require_ok_iff, continues_ok_iff, admits_iff, pure, Except.pure,
    Except.ok.injEq, eq_comm (a := v')]
  grind

/-! ## Runs -/

/-- The automaton admits a list of events one after another. -/
def AdmitsAll : RuntimeInvocationSequenceValidator → List InvocationEventV03 → Prop
  | _, [] => True
  | v, e :: es => v.Admits e ∧ AdmitsAll (v.next e) es

def nextAll (v : RuntimeInvocationSequenceValidator) (es : List InvocationEventV03) :
    RuntimeInvocationSequenceValidator :=
  es.foldl next v

theorem acceptAll_ok_iff [Semver] :
    v.acceptAll es = .ok v' ↔
      (∀ e ∈ es, validateInvocationEventV03 e = .ok ()) ∧ v.AdmitsAll es ∧ v' = v.nextAll es := by
  induction es generalizing v with
  | nil =>
      simp only [acceptAll, List.foldlM_nil, pure, Except.pure, AdmitsAll, nextAll, List.foldl_nil]
      simp [eq_comm]
  | cons e es ih =>
      have hcons : v.acceptAll (e :: es) = v.accept e >>= fun v => v.acceptAll es := rfl
      simp only [hcons, bind_ok_iff, accept_ok_iff, ih, List.forall_mem_cons, AdmitsAll]
      constructor
      · rintro ⟨_, ⟨hv, ha, rfl⟩, hvs, has, hn⟩
        exact ⟨⟨hv, hvs⟩, ⟨ha, has⟩, hn⟩
      · rintro ⟨⟨hv, hvs⟩, ⟨ha, has⟩, hn⟩
        exact ⟨_, ⟨hv, ha, rfl⟩, hvs, has, hn⟩

theorem admitsAll_append {fs : List InvocationEventV03} :
    v.AdmitsAll (es ++ fs) ↔ v.AdmitsAll es ∧ (v.nextAll es).AdmitsAll fs := by
  induction es generalizing v with
  | nil => simp [AdmitsAll, nextAll]
  | cons e es ih => simp [AdmitsAll, nextAll, ih, and_assoc]

theorem admitsAll_concat : v.AdmitsAll (es ++ [e]) ↔ v.AdmitsAll es ∧ (v.nextAll es).Admits e := by
  rw [admitsAll_append]
  simp [AdmitsAll]

theorem nextAll_concat (v : RuntimeInvocationSequenceValidator) (es : List InvocationEventV03)
    (e : InvocationEventV03) : v.nextAll (es ++ [e]) = (v.nextAll es).next e := by
  simp [nextAll]

theorem nextAll_nextSequence (v : RuntimeInvocationSequenceValidator)
    (es : List InvocationEventV03) :
    (v.nextAll es).nextSequence = v.nextSequence + es.length := by
  induction es generalizing v with
  | nil => simp [nextAll]
  | cons e es ih =>
      have hnext : (v.next e).nextSequence = v.nextSequence + 1 := rfl
      have htail : v.nextAll (e :: es) = (v.next e).nextAll es := rfl
      rw [htail, ih, hnext, List.length_cons]
      omega

/-- An admitted run has the sequence numbers from the validator's own
on, without a gap. -/
theorem admitsAll_sequence (h : v.AdmitsAll es) :
    es.map (·.sequence) = (List.range es.length).map fun i : Nat => v.nextSequence + i := by
  induction es generalizing v with
  | nil => rfl
  | cons e es ih =>
      obtain ⟨he, hes⟩ := h
      have htail : (v.next e).nextSequence = v.nextSequence + 1 := rfl
      rw [List.map_cons, ih hes, he.sequence, List.length_cons, List.range_succ_eq_map, htail]
      simp only [List.map_cons, List.map_map, List.cons.injEq]
      refine ⟨by simp, List.map_congr_left fun i _ => ?_⟩
      simp only [Function.comp_apply]
      omega

/-- An admitted run keeps the context. -/
theorem admitsAll_context {last : InvocationEventV03} (h : v.AdmitsAll es)
    (hlast : v.last = some last) : ∀ e ∈ es, e.toInvocationContext = last.toInvocationContext := by
  induction es generalizing v last with
  | nil => simp
  | cons e es ih =>
      obtain ⟨he, hes⟩ := h
      have hctx := he.context last (by simp [hlast])
      intro e' he'
      rcases List.mem_cons.mp he' with rfl | hmem
      · exact hctx.symm
      · rw [hctx]
        exact ih hes rfl e' hmem

/-- The automaton does not read the spelling of the time. -/
theorem Admits.retime (h : v.Admits e) (occurredAt : String) :
    v.Admits { e with occurredAt := occurredAt } :=
  ⟨h.live, h.sequence, h.start, h.context, h.transition, h.chunk⟩

/-- After at least one event, `last` and `terminal` are read off the
last one. -/
theorem nextAll_fresh_last (es : List InvocationEventV03) :
    (fresh.nextAll es).last = es.getLast?
      ∧ (fresh.nextAll es).terminal = es.getLast?.any fun e =>
        isRuntimeTerminalStatus e.status := by
  rcases List.eq_nil_or_concat es with rfl | ⟨es, e, rfl⟩
  · exact ⟨rfl, rfl⟩
  · simp [nextAll_concat, next]

end RuntimeInvocationSequenceValidator

end Nekiro
