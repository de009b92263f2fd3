import Nekiro.DispatchErrors
import Nekiro.Target

/-!
# The streaming client

`Client.SendStreaming` reads the items of an A2A stream, maps each to an
event of the router's own model and hands it to its consumer as soon as it
passes the checks; a terminal event is held back until the upstream has
ended. `sendStreaming` is the list of what a consumer that never stops is
handed, with the upstream as a parameter.

`Admits` says when an item passes and `next` what it leaves behind, so that
`acceptItem_ok_iff` is all the rest needs to know about the loop body.

Items come from the transport library, which decodes them. The validators
of messages and tasks refuse a nil one, and so does the model; updates are
taken to be there, as the code takes them.
-/

namespace Nekiro

namespace A2A

open Guard Transport

/-! ## Upstream events -/

/-- `a2a.TaskState`. -/
inductive TaskState where
  | submitted
  | working
  | completed
  | failed
  | rejected
  | canceled
  | authRequired
  | inputRequired
  | unknown
  | unspecified
  | other (text : String)
deriving Repr, DecidableEq

def TaskState.text : TaskState → String
  | .submitted => "submitted"
  | .working => "working"
  | .completed => "completed"
  | .failed => "failed"
  | .rejected => "rejected"
  | .canceled => "canceled"
  | .authRequired => "auth-required"
  | .inputRequired => "input-required"
  | .unknown => "unknown"
  | .unspecified => ""
  | .other text => text

inductive MessageRole where
  | agent
  | user
  | other (text : String)
deriving Repr, DecidableEq

structure Message where
  id : String
  role : MessageRole
  parts : List Json.Bytes
  taskID : String
  contextID : String
deriving Repr, DecidableEq

def Message.zero : Message := ⟨"", .other "", [], "", ""⟩

structure Task where
  id : String
  contextID : String
  state : TaskState
deriving Repr, DecidableEq

def Task.zero : Task := ⟨"", "", .unspecified⟩

structure TaskStatusUpdateEvent where
  taskID : String
  contextID : String
  state : TaskState
  final : Bool
deriving Repr, DecidableEq

structure Artifact where
  id : String
  parts : List Json.Bytes
deriving Repr, DecidableEq

structure TaskArtifactUpdateEvent where
  taskID : String
  contextID : String
  artifact : Option Artifact
  append : Bool
  lastChunk : Bool
deriving Repr, DecidableEq

/-- `a2a.Event`. -/
inductive UpstreamEvent where
  | message (value : Option Message)
  | task (value : Option Task)
  | statusUpdate (value : TaskStatusUpdateEvent)
  | artifactUpdate (value : TaskArtifactUpdateEvent)
  /-- Any other implementation of the interface. -/
  | other
deriving Repr, DecidableEq

/-- An item of the transport: the decoded event and the bytes it was
decoded from. -/
structure Item where
  event : UpstreamEvent
  result : Json.Bytes
deriving Repr, DecidableEq

/-! ## The profile -/

inductive Classification where
  | transient
  | terminal
deriving Repr, DecidableEq

structure A2ATaskStateMapping where
  state : TaskState
  classification : Classification
  invocationStatus : InvocationStatus
  errorCode : PlatformErrorCode
deriving Repr, DecidableEq

def profileStateError (state : TaskState) (reason : String) : GoError :=
  .plain ("A2A task state " ++ state.text.quote ++ " is " ++ reason ++ " in Profile v0.2")

def mapA2ATaskState (state : TaskState) : Except GoError A2ATaskStateMapping :=
  match state with
  | .submitted | .working => .ok ⟨state, .transient, .running, .other ""⟩
  | .completed => .ok ⟨state, .terminal, .succeeded, .other ""⟩
  | .failed | .rejected => .ok ⟨state, .terminal, .failed, .agentExecutionFailed⟩
  | .canceled => .ok ⟨state, .terminal, .canceled, .canceled⟩
  | .authRequired | .inputRequired | .unknown =>
      .error (profileStateError state "recognized but unsupported")
  | .unspecified => .error (profileStateError state "unspecified")
  | .other _ => .error (profileStateError state "not defined by A2A protocol 0.3.0")

def profileTaskError (reason : String) : GoError :=
  .plain ("A2A task violates Profile v0.2: " ++ reason)

def validateA2ATask : Option Task → Except GoError A2ATaskStateMapping
  | none => .error (profileTaskError "task is missing")
  | some task => do
      require (task.id ≠ "") (profileTaskError "task id is empty")
      require (task.contextID ≠ "") (profileTaskError "context id is empty")
      mapA2ATaskState task.state

def profileMessageError (reason : String) : GoError :=
  .plain ("A2A message violates Profile v0.2: " ++ reason)

def validateA2AMessageResult : Option Message → Except GoError Unit
  | none => .error (profileMessageError "message is missing")
  | some message => do
      require (message.id ≠ "") (profileMessageError "message id is empty")
      require (message.role = .agent) (profileMessageError "message role is not agent")
      require (message.parts ≠ []) (profileMessageError "message has no parts")

/-! ## Mapping -/

inductive StreamKind where
  | message
  | task
  | statusUpdate
  | artifactUpdate
deriving Repr, DecidableEq

/-- `stream.Event`; an absent type, status or code is `other ""`. -/
structure Event where
  payload : Json.Bytes
  kind : StreamKind
  taskID : String
  contextID : String
  artifactID : String
  artifactAppend : Bool
  artifactLast : Bool
  terminalType : ResultStreamEventType
  terminalStatus : InvocationStatus
  errorCode : PlatformErrorCode
deriving Repr, DecidableEq

/-- An event that only has a kind and an identity. -/
def Event.plain (kind : StreamKind) (taskID contextID : String) : Event :=
  ⟨[], kind, taskID, contextID, "", false, false, .other "", .other "", .other ""⟩

/-- The terminal fields of a task or of a status update. -/
def Event.withMapping (e : Event) (mapping : A2ATaskStateMapping) : Event :=
  match mapping.classification with
  | .transient => e
  | .terminal =>
      { e with
        terminalStatus := mapping.invocationStatus
        errorCode := mapping.errorCode
        terminalType := match mapping.invocationStatus with
          | .succeeded => .completed
          | .canceled => .canceled
          | _ => .failed }

def mapA2AStreamEvent : UpstreamEvent → Except GoError Event
  | .message value => do
      validateA2AMessageResult value
      let message := value.getD .zero
      require (message.taskID ≠ "" ∧ message.contextID ≠ "")
        (.plain "A2A stream message task and context IDs are required")
      pure (.plain .message message.taskID message.contextID)
  | .task value => do
      let mapping ← validateA2ATask value
      let task := value.getD .zero
      pure ((Event.plain .task task.id task.contextID).withMapping mapping)
  | .statusUpdate value => do
      require (value.taskID ≠ "" ∧ value.contextID ≠ "")
        (.plain "A2A status event task and context IDs are required")
      let mapping ← mapA2ATaskState value.state
      require (mapping.classification = .terminal ↔ value.final = true)
        (.plain "A2A status event final flag contradicts task state")
      pure ((Event.plain .statusUpdate value.taskID value.contextID).withMapping mapping)
  | .artifactUpdate value =>
      match value.artifact with
      | none => .error (.plain "A2A artifact event is incomplete")
      | some artifact => do
          require (value.taskID ≠ "" ∧ value.contextID ≠ "" ∧ artifact.id ≠ ""
            ∧ artifact.parts ≠ [])
            (.plain "A2A artifact event is incomplete")
          pure { Event.plain .artifactUpdate value.taskID value.contextID with
            artifactID := artifact.id
            artifactAppend := value.append
            artifactLast := value.lastChunk }
  | .other => .error (.plain "A2A stream event kind is unsupported")

/-- A mapped item with its payload. -/
def project (item : Item) : Except GoError Event :=
  (mapA2AStreamEvent item.event).map fun e => { e with payload := item.result }

def Event.Terminal (e : Event) : Prop := e.terminalType ≠ .other ""

instance (e : Event) : Decidable e.Terminal := inferInstanceAs (Decidable (_ ≠ _))

/-! ## The loop -/

/-- The variables of the loop. The maps hold `true` for the listed keys;
`terminalSeen` is set together with `pendingTerminal`. -/
structure State where
  taskID : String
  contextID : String
  artifactSeen : List String
  artifactLast : List String
  pendingTerminal : Option Event
deriving Repr, DecidableEq

def State.initial : State := ⟨"", "", [], [], none⟩

/-- Every artifact seen has had its last chunk. -/
def State.Closed (st : State) : Prop := ∀ id ∈ st.artifactSeen, id ∈ st.artifactLast

instance (st : State) : Decidable st.Closed := inferInstanceAs (Decidable (∀ id ∈ _, _))

def protocolError (message : String) : GoError := classify .a2aProtocol (.plain message)

/-- The block for an artifact update. -/
def State.trackArtifact (st : State) (mapped : Event) : Except GoError State :=
  if mapped.kind = .artifactUpdate then do
    require (mapped.artifactID ≠ "") (protocolError "A2A artifact identity is required")
    require (mapped.artifactAppend = true → mapped.artifactID ∈ st.artifactSeen)
      (protocolError "A2A artifact append has no base chunk")
    require (mapped.artifactID ∉ st.artifactLast)
      (protocolError "A2A artifact emitted after its last chunk")
    require (mapped.artifactAppend = false → mapped.artifactID ∉ st.artifactSeen)
      (protocolError "A2A artifact base chunk was repeated")
    pure { st with
      artifactSeen := mapped.artifactID :: st.artifactSeen
      artifactLast :=
        if mapped.artifactLast then mapped.artifactID :: st.artifactLast else st.artifactLast }
  else pure st

def State.trackIdentity (st : State) (mapped : Event) : Except GoError State :=
  if st.taskID = "" then pure { st with taskID := mapped.taskID, contextID := mapped.contextID }
  else do
    require (mapped.taskID = st.taskID ∧ mapped.contextID = st.contextID)
      (protocolError "A2A stream task or context identity changed")
    pure st

/-- The end of the loop body: a terminal event has to wait. -/
def State.handOn (st : State) (event : Event) : Except GoError (State × Option Event) :=
  if event.Terminal then do
    require st.Closed (protocolError "A2A artifact stream ended before last chunk")
    pure ({ st with pendingTerminal := some event }, none)
  else pure (st, some event)

/-- The loop body: the variables it leaves, and the event it hands on. -/
def acceptItem (eventLimit : Int) (st : State) (item : Item) :
    Except GoError (State × Option Event) :=
  match mapA2AStreamEvent item.event with
  | .error err => .error (classify .a2aProtocol err)
  | .ok mapped => do
      require (st.pendingTerminal = none)
        (protocolError "A2A stream emitted an event after terminal")
      let st ← st.trackArtifact mapped
      let payload := item.result
      require (payload ≠ []) (protocolError "A2A stream result payload is unavailable")
      require ((payload.length : Int) ≤ eventLimit) (classify .agentResponseTooLarge
        (.plain "A2A streaming event exceeds the configured limit"))
      let st ← st.trackIdentity mapped
      st.handOn { mapped with payload := payload }

/-- After the loop; `contextErr` is the state of the context then. -/
def finish (contextErr : Option ContextError) (st : State) : Except GoError Event :=
  if st.Closed then
    match contextErr, st.pendingTerminal with
    | some c, _ => .error c.err
    | none, some event => .ok event
    | none, none => .error (.sentinel .interrupted)
  else .error (protocolError "A2A artifact stream ended before lastChunk")

/-- What the consumer is handed for the rest of the upstream. -/
def streamItems [Failures] (eventLimit : Int) (contextErr : Option ContextError) :
    State → List (Except GoError Item) → List (Except GoError Event)
  | st, [] => [finish contextErr st]
  | _, .error err :: _ => [.error (classifyTransportError err)]
  | st, .ok item :: upstream =>
      match acceptItem eventLimit st item with
      | .error err => [.error err]
      | .ok (st, some event) => .ok event :: streamItems eventLimit contextErr st upstream
      | .ok (st, none) => streamItems eventLimit contextErr st upstream

structure Client where
  inputLimitBytes : Int
  a2aEventLimitBytes : Int
deriving Repr, DecidableEq

def Client.inputLimit (client : Client) (target : Target) : Int :=
  if target.maxInputBytes < client.inputLimitBytes then target.maxInputBytes
  else client.inputLimitBytes

def Client.eventLimit (client : Client) (target : Target) : Int :=
  if target.maxOutputBytes < client.a2aEventLimitBytes then target.maxOutputBytes
  else client.a2aEventLimitBytes

/-- `messageSendParams`: the input is decoded into a map, which `null`
leaves nil. -/
def messageSendParams (input : Json.Bytes) : Except GoError Unit :=
  require ((Json.parse Json.maxNestingDepth input).any fun lexemes =>
      lexemes.head?.any fun l => l.token == .beginObject || l.token == .null)
    (.plain "input is no JSON object")

/-- `Client.SendStreaming`, for the target that `NewTarget` and
`selectTarget` return. -/
def Client.sendStreaming [Failures] (client : Client) (selected : Except GoError Target)
    (input : Json.Bytes) (upstream : List (Except GoError Item))
    (contextErr : Option ContextError) : List (Except GoError Event) :=
  match selected with
  | .error err => [.error err]
  | .ok target =>
      if target.streaming = false then
        [.error (classify .routeNotFound
          (.plain "resolved Agent Card does not enable streaming"))]
      else if client.inputLimit target < input.length then
        [.error (classify .payloadTooLarge
          (.plain "dispatch input exceeds the resolved Agent limit"))]
      else match messageSendParams input with
        | .error err => [.error (classify .a2aProtocol err)]
        | .ok () => streamItems (client.eventLimit target) contextErr .initial upstream

/-! ## The loop body -/

/-- What a mapped event is. -/
structure Event.Mapped (e : Event) : Prop where
  taskID : e.taskID ≠ ""
  artifactID : e.kind = .artifactUpdate → e.artifactID ≠ ""

theorem withMapping_taskID (e : Event) (mapping : A2ATaskStateMapping) :
    (e.withMapping mapping).taskID = e.taskID := by
  unfold Event.withMapping
  cases mapping.classification <;> rfl

theorem withMapping_kind (e : Event) (mapping : A2ATaskStateMapping) :
    (e.withMapping mapping).kind = e.kind := by
  unfold Event.withMapping
  cases mapping.classification <;> rfl

variable {e : Event} {st st' : State}

theorem mapped_of_map {event : UpstreamEvent} (h : mapA2AStreamEvent event = .ok e) : e.Mapped := by
  cases event with
  | message value =>
      unfold mapA2AStreamEvent at h
      simp only [check_bind_ok_iff, require_ok_iff, pure, Except.pure, Except.ok.injEq] at h
      obtain ⟨-, ⟨htask, -⟩, rfl⟩ := h
      exact ⟨htask, nofun⟩
  | task value =>
      unfold mapA2AStreamEvent at h
      simp only [bind_ok_iff, pure, Except.pure, Except.ok.injEq] at h
      obtain ⟨mapping, hvalid, rfl⟩ := h
      cases value with
      | none => cases hvalid
      | some task =>
          unfold validateA2ATask at hvalid
          rw [check_bind_ok_iff, require_ok_iff] at hvalid
          refine ⟨?_, fun hkind => ?_⟩
          · rw [withMapping_taskID]
            exact hvalid.1
          · rw [withMapping_kind] at hkind
            cases hkind
  | statusUpdate value =>
      unfold mapA2AStreamEvent at h
      rw [check_bind_ok_iff, require_ok_iff] at h
      obtain ⟨⟨htask, -⟩, h⟩ := h
      simp only [bind_ok_iff, pure, Except.pure, Except.ok.injEq] at h
      obtain ⟨mapping, -, -, -, rfl⟩ := h
      refine ⟨?_, fun hkind => ?_⟩
      · rw [withMapping_taskID]
        exact htask
      · rw [withMapping_kind] at hkind
        cases hkind
  | artifactUpdate value =>
      unfold mapA2AStreamEvent at h
      cases hartifact : value.artifact with
      | none =>
          simp only [hartifact] at h
          cases h
      | some artifact =>
          simp only [hartifact, check_bind_ok_iff, require_ok_iff, pure, Except.pure,
            Except.ok.injEq] at h
          obtain ⟨⟨htask, -, hid, -⟩, rfl⟩ := h
          exact ⟨htask, fun _ => hid⟩
  | other => cases h

theorem mapped_of_project {item : Item} (h : project item = .ok e) : e.Mapped := by
  unfold project at h
  obtain ⟨mapped, hmap, rfl⟩ := map_ok_iff.mp h
  exact ⟨(mapped_of_map hmap).taskID, (mapped_of_map hmap).artifactID⟩

/-- The variables after an artifact update. -/
def State.withArtifact (st : State) (e : Event) : State :=
  if e.kind = .artifactUpdate then
    { st with
      artifactSeen := e.artifactID :: st.artifactSeen
      artifactLast := if e.artifactLast then e.artifactID :: st.artifactLast else st.artifactLast }
  else st

/-- The variables after an event that passes. -/
def State.next (st : State) (e : Event) : State :=
  { st.withArtifact e with
    taskID := if st.taskID = "" then e.taskID else st.taskID
    contextID := if st.taskID = "" then e.contextID else st.contextID
    pendingTerminal := if e.Terminal then some e else st.pendingTerminal }

/-- The event passes the checks of the loop body. -/
@[mk_iff]
structure State.Admits (eventLimit : Int) (st : State) (e : Event) : Prop where
  live : st.pendingTerminal = none
  artifact : e.kind = .artifactUpdate → e.artifactID ≠ ""
    ∧ (e.artifactAppend = true ↔ e.artifactID ∈ st.artifactSeen)
    ∧ e.artifactID ∉ st.artifactLast
  payload : e.payload ≠ [] ∧ (e.payload.length : Int) ≤ eventLimit
  identity : st.taskID ≠ "" → e.taskID = st.taskID ∧ e.contextID = st.contextID
  closed : e.Terminal → (st.withArtifact e).Closed

theorem trackArtifact_ok_iff :
    st.trackArtifact e = .ok st' ↔
      (e.kind = .artifactUpdate → e.artifactID ≠ ""
        ∧ (e.artifactAppend = true ↔ e.artifactID ∈ st.artifactSeen)
        ∧ e.artifactID ∉ st.artifactLast) ∧ st' = st.withArtifact e := by
  unfold State.trackArtifact State.withArtifact
  by_cases hkind : e.kind = .artifactUpdate
  · rw [if_pos hkind, if_pos hkind]
    simp only [check_bind_ok_iff, require_ok_iff, pure, Except.pure, Except.ok.injEq]
    constructor
    · rintro ⟨hid, happend, hlast, hbase, rfl⟩
      refine ⟨fun _ => ⟨hid, ⟨happend, fun hseen => ?_⟩, hlast⟩, rfl⟩
      cases hfresh : e.artifactAppend with
      | true => rfl
      | false => exact absurd hseen (hbase hfresh)
    · rintro ⟨hartifact, rfl⟩
      obtain ⟨hid, happend, hlast⟩ := hartifact hkind
      refine ⟨hid, happend.mp, hlast, fun hfresh hseen => ?_, rfl⟩
      rw [happend.mpr hseen] at hfresh
      cases hfresh
  · rw [if_neg hkind, if_neg hkind]
    simp only [pure, Except.pure, Except.ok.injEq]
    constructor
    · rintro rfl
      exact ⟨fun h => absurd h hkind, rfl⟩
    · rintro ⟨-, rfl⟩
      rfl

theorem trackIdentity_ok_iff :
    st.trackIdentity e = .ok st' ↔
      (st.taskID ≠ "" → e.taskID = st.taskID ∧ e.contextID = st.contextID)
        ∧ st' = { st with
          taskID := if st.taskID = "" then e.taskID else st.taskID
          contextID := if st.taskID = "" then e.contextID else st.contextID } := by
  unfold State.trackIdentity
  by_cases htask : st.taskID = ""
  · rw [if_pos htask, if_pos htask, if_pos htask]
    simp only [pure, Except.pure, Except.ok.injEq]
    constructor
    · rintro rfl
      exact ⟨fun h => absurd htask h, rfl⟩
    · rintro ⟨-, rfl⟩
      rfl
  · rw [if_neg htask, if_neg htask, if_neg htask]
    simp only [check_bind_ok_iff, require_ok_iff, pure, Except.pure, Except.ok.injEq]
    constructor
    · rintro ⟨hsame, rfl⟩
      exact ⟨fun _ => hsame, rfl⟩
    · rintro ⟨hsame, rfl⟩
      exact ⟨hsame htask, rfl⟩

theorem handOn_ok_iff {out : Option Event} :
    st.handOn e = .ok (st', out) ↔
      (e.Terminal → st.Closed)
        ∧ st' = { st with pendingTerminal := if e.Terminal then some e else st.pendingTerminal }
        ∧ out = if e.Terminal then none else some e := by
  unfold State.handOn
  by_cases hterminal : e.Terminal
  · rw [if_pos hterminal, if_pos hterminal, if_pos hterminal, check_bind_ok_iff, require_ok_iff]
    simp only [pure, Except.pure, Except.ok.injEq, Prod.mk.injEq]
    constructor
    · rintro ⟨hclosed, rfl, rfl⟩
      exact ⟨fun _ => hclosed, rfl, rfl⟩
    · rintro ⟨hclosed, rfl, rfl⟩
      exact ⟨hclosed hterminal, rfl, rfl⟩
  · rw [if_neg hterminal, if_neg hterminal, if_neg hterminal]
    simp only [pure, Except.pure, Except.ok.injEq, Prod.mk.injEq]
    constructor
    · rintro ⟨rfl, rfl⟩
      exact ⟨fun h => absurd h hterminal, rfl, rfl⟩
    · rintro ⟨-, rfl, rfl⟩
      exact ⟨rfl, rfl⟩

theorem withArtifact_taskID (st : State) (e : Event) : (st.withArtifact e).taskID = st.taskID := by
  unfold State.withArtifact
  split_ifs <;> rfl

theorem withArtifact_contextID (st : State) (e : Event) :
    (st.withArtifact e).contextID = st.contextID := by
  unfold State.withArtifact
  split_ifs <;> rfl

theorem withArtifact_pendingTerminal (st : State) (e : Event) :
    (st.withArtifact e).pendingTerminal = st.pendingTerminal := by
  unfold State.withArtifact
  split_ifs <;> rfl

/-- The loop body, for an item that is mapped. -/
theorem acceptItem_ok_iff {eventLimit : Int} {item : Item} {out : Option Event}
    (hproject : project item = .ok e) :
    acceptItem eventLimit st item = .ok (st', out) ↔
      st.Admits eventLimit e ∧ st' = st.next e ∧ out = if e.Terminal then none else some e := by
  obtain ⟨mapped, hmap, rfl⟩ := map_ok_iff.mp hproject
  have hartifact : st.withArtifact mapped = st.withArtifact
      { mapped with payload := item.result } :=
    rfl
  unfold acceptItem
  rw [hmap]
  dsimp only
  rw [check_bind_ok_iff, require_ok_iff, bind_ok_iff]
  constructor
  · rintro ⟨hlive, tracked, htracked, hrest⟩
    obtain ⟨hchunk, rfl⟩ := trackArtifact_ok_iff.mp htracked
    rw [check_bind_ok_iff, require_ok_iff, check_bind_ok_iff, require_ok_iff, bind_ok_iff] at hrest
    obtain ⟨hsome, hfits, identified, hidentified, hhand⟩ := hrest
    obtain ⟨hidentity, rfl⟩ := trackIdentity_ok_iff.mp hidentified
    obtain ⟨hclosed, rfl, rfl⟩ := handOn_ok_iff.mp hhand
    rw [withArtifact_taskID, withArtifact_contextID] at hidentity
    refine ⟨⟨hlive, hchunk, ⟨hsome, hfits⟩, hidentity, hclosed⟩, ?_, rfl⟩
    unfold State.next
    rw [withArtifact_taskID, withArtifact_contextID, withArtifact_pendingTerminal, hartifact]
  · rintro ⟨hadmits, rfl, rfl⟩
    refine ⟨hadmits.live, _, trackArtifact_ok_iff.mpr ⟨hadmits.artifact, rfl⟩, ?_⟩
    rw [check_bind_ok_iff, require_ok_iff, check_bind_ok_iff, require_ok_iff, bind_ok_iff]
    refine ⟨hadmits.payload.1, hadmits.payload.2, _, trackIdentity_ok_iff.mpr ⟨?_, rfl⟩,
      handOn_ok_iff.mpr ⟨hadmits.closed, ?_, rfl⟩⟩
    · rw [withArtifact_taskID, withArtifact_contextID]
      exact hadmits.identity
    · unfold State.next
      rw [withArtifact_taskID, withArtifact_contextID, withArtifact_pendingTerminal, hartifact]

end A2A

end Nekiro
