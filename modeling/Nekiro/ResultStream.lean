import Nekiro.Json
import Nekiro.RuntimeContracts

/-!
# The result stream

Invocation Result Stream Event v2: its schema, the validator of a whole
stream, and the bytes of one server-sent event.

As for the invocation lifecycle, `accept_ok_iff` splits the validator
into the validity of one event and a small automaton (`Admits`, `next`),
and the JSON text of an event has no line break (`printable_marshal`).
-/

namespace Nekiro

open Guard

inductive ResultStreamEventType where
  | accepted
  | chunk
  | completed
  | failed
  | canceled
  | timedOut
  | other (text : String)
deriving Repr, DecidableEq

namespace ResultStreamEventType

def text : ResultStreamEventType → String
  | .accepted => "accepted"
  | .chunk => "chunk"
  | .completed => "completed"
  | .failed => "failed"
  | .canceled => "canceled"
  | .timedOut => "timed_out"
  | .other text => text

/-- `isResultStreamTerminal`. -/
def isTerminal : ResultStreamEventType → Bool
  | .completed | .failed | .canceled | .timedOut => true
  | _ => false

/-- The type of the lifecycle event with the same name. -/
def eventType : ResultStreamEventType → EventType
  | .failed => .failed
  | .canceled => .canceled
  | .timedOut => .timedOut
  | .accepted => .other "accepted"
  | .chunk => .other "chunk"
  | .completed => .other "completed"
  | .other text => .other text

end ResultStreamEventType

structure InvocationResultStreamEventV2 where
  schemaVersion : String
  sequence : Int
  type : ResultStreamEventType
  status : InvocationStatus
  invocationID : String
  rootTaskID : String
  traceID : String
  chunkIndex : Option Int
  /-- Raw JSON; the empty text is an absent chunk. -/
  chunk : Json.Bytes
  error : Option CorrelatedPlatformErrorV4
deriving Repr, DecidableEq

namespace InvocationResultStreamEventV2

/-- The `oneOf` of the schema: the fields each type has. -/
def shape (e : InvocationResultStreamEventV2) : Bool :=
  match e.type with
  | .accepted => e.status == .pending && e.chunkIndex == none && e.chunk == [] && e.error == none
  | .chunk => e.status == .running && e.chunkIndex.isSome && e.chunk != [] && e.error == none
  | .completed =>
      e.status == .succeeded && e.chunkIndex == none && e.chunk == [] && e.error == none
  | .failed =>
      e.status == .failed && e.chunkIndex == none && e.chunk == []
        && e.error.any fun err => err.code != .canceled && err.code != .timeout
  | .canceled =>
      e.status == .canceled && e.chunkIndex == none && e.chunk == []
        && e.error.any fun err => err.code == .canceled
  | .timedOut =>
      e.status == .timedOut && e.chunkIndex == none && e.chunk == []
        && e.error.any fun err => err.code == .timeout
  | .other _ => false

/-- `invocation-result-stream-event.v2.schema.json`, for an event that
can be encoded: its chunk is JSON and leaves one level of nesting to the
document around it. -/
@[mk_iff]
structure Schema (e : InvocationResultStreamEventV2) : Prop where
  document : e.chunk = [] ∨ Json.wellFormed (Json.maxNestingDepth - 1) e.chunk = true
  schemaVersion : e.schemaVersion = "2"
  sequence : 0 ≤ e.sequence
  invocationID : safeIdentifier e.invocationID
  rootTaskID : safeIdentifier e.rootTaskID
  traceID : safeIdentifier e.traceID
  chunkIndex : nonNegative e.chunkIndex
  error : ∀ err ∈ e.error, err.Schema
  shape : e.shape = true

instance (e : InvocationResultStreamEventV2) : Decidable e.Schema :=
  decidable_of_iff _ (schema_iff e).symm

end InvocationResultStreamEventV2

def validateInvocationResultStreamEventV2 (e : InvocationResultStreamEventV2) :
    Except ContractError Unit := do
  require e.Schema .schema
  validateRuntimeNestedErrorCorrelation e.invocationID e.rootTaskID e.traceID e.error

/-! ## The sequence validator -/

structure RuntimeResultStreamSequenceValidator where
  invocationID : String
  rootTaskID : String
  traceID : String
  nextSequence : Int
  nextChunkIndex : Int
  terminal : Bool
  closed : Bool
deriving Repr, DecidableEq

def newRuntimeResultStreamSequenceValidator (invocationID rootTaskID traceID : String) :
    Except ContractError RuntimeResultStreamSequenceValidator := do
  validateSafeContractIdentifier "invocation id" invocationID
  validateSafeContractIdentifier "root task id" rootTaskID
  parseTraceID traceID
  pure ⟨invocationID, rootTaskID, traceID, 0, 0, false, false⟩

variable {v : RuntimeResultStreamSequenceValidator} {e : InvocationResultStreamEventV2}

namespace RuntimeResultStreamSequenceValidator

/-- The state after an accepted event. -/
def next (v : RuntimeResultStreamSequenceValidator) (e : InvocationResultStreamEventV2) :
    RuntimeResultStreamSequenceValidator :=
  { v with
    nextSequence := v.nextSequence + 1
    nextChunkIndex := if e.type = .chunk then v.nextChunkIndex + 1 else v.nextChunkIndex
    terminal := e.type.isTerminal }

def accept (v : RuntimeResultStreamSequenceValidator) (e : InvocationResultStreamEventV2) :
    Except ContractError RuntimeResultStreamSequenceValidator := do
  require (v.closed = false) .streamClosed
  require (v.terminal = false) .sequenceTerminal
  validateInvocationResultStreamEventV2 e
  require (e.invocationID = v.invocationID ∧ e.rootTaskID = v.rootTaskID ∧ e.traceID = v.traceID)
    (.message "result stream correlation changed")
  require (e.sequence = v.nextSequence)
    (.message ("result stream sequence must be " ++ toString v.nextSequence))
  require (v.nextSequence = 0 → e.type = .accepted)
    (.message "result stream must begin with accepted")
  require (0 < v.nextSequence → e.type ≠ .accepted)
    (.message "result stream accepted event must be first")
  require (e.type = .chunk → e.chunkIndex = some v.nextChunkIndex)
    (.message ("result stream chunk index must be " ++ toString v.nextChunkIndex))
  pure (v.next e)

/-- A run over a list of events. -/
def acceptAll (v : RuntimeResultStreamSequenceValidator)
    (es : List InvocationResultStreamEventV2) :
    Except ContractError RuntimeResultStreamSequenceValidator :=
  es.foldlM accept v

/-- The guard of the automaton. -/
@[mk_iff]
structure Admits (v : RuntimeResultStreamSequenceValidator) (e : InvocationResultStreamEventV2) :
    Prop where
  opened : v.closed = false
  live : v.terminal = false
  correlation : e.invocationID = v.invocationID ∧ e.rootTaskID = v.rootTaskID
    ∧ e.traceID = v.traceID
  sequence : e.sequence = v.nextSequence
  first : v.nextSequence = 0 → e.type = .accepted
  later : 0 < v.nextSequence → e.type ≠ .accepted
  chunk : e.type = .chunk → e.chunkIndex = some v.nextChunkIndex

theorem accept_ok_iff {v' : RuntimeResultStreamSequenceValidator} :
    v.accept e = .ok v' ↔
      validateInvocationResultStreamEventV2 e = .ok () ∧ v.Admits e ∧ v' = v.next e := by
  unfold accept
  simp only [check_bind_ok_iff, require_ok_iff, admits_iff, pure, Except.pure, Except.ok.injEq,
    eq_comm (a := v')]
  grind

theorem acceptAll_concat {v1 : RuntimeResultStreamSequenceValidator}
    {es : List InvocationResultStreamEventV2} (h : v.acceptAll es = .ok v1) :
    v.acceptAll (es ++ [e]) = v1.accept e := by
  unfold acceptAll at h ⊢
  rw [List.foldlM_append, h, ok_bind, List.foldlM_cons]
  cases v1.accept e <;> rfl

end RuntimeResultStreamSequenceValidator

/-! ## Frames -/

namespace InvocationResultStreamEventV2

/-- A member of a JSON object. -/
def member (name : String) (value : Json.Bytes) : Json.Bytes :=
  Json.encodeString name ++ Json.utf8 ":" ++ value

def commaSeparated : List Json.Bytes → Json.Bytes
  | [] => []
  | [m] => m
  | m :: ms => m ++ Json.utf8 "," ++ commaSeparated ms

/-- An object with these members. -/
def object (members : List Json.Bytes) : Json.Bytes :=
  Json.utf8 "\x7b" ++ commaSeparated members ++ Json.utf8 "\x7d"

def encodeInt (n : Int) : Json.Bytes := Json.utf8 (toString n)

def encodeError (err : CorrelatedPlatformErrorV4) : Json.Bytes :=
  object [member "code" (Json.encodeString err.code.text),
    member "message" (Json.encodeString err.message),
    member "traceId" (Json.encodeString err.traceID),
    member "invocationId" (Json.encodeString err.invocationID),
    member "rootTaskId" (Json.encodeString err.rootTaskID)]

/-- The members of an event, in the order of its struct. -/
def members (e : InvocationResultStreamEventV2) : List Json.Bytes :=
  [member "schemaVersion" (Json.encodeString e.schemaVersion),
    member "sequence" (encodeInt e.sequence),
    member "type" (Json.encodeString e.type.text),
    member "status" (Json.encodeString e.status.text),
    member "invocationId" (Json.encodeString e.invocationID),
    member "rootTaskId" (Json.encodeString e.rootTaskID),
    member "traceId" (Json.encodeString e.traceID)]
    ++ e.chunkIndex.toList.map (fun i => member "chunkIndex" (encodeInt i))
    ++ (if e.chunk = [] then [] else [member "chunk" (Json.compact e.chunk)])
    ++ e.error.toList.map fun err => member "error" (encodeError err)

/-- `json.Marshal(event)`; `none` for a chunk that is no JSON. -/
def marshal (e : InvocationResultStreamEventV2) : Option Json.Bytes :=
  if e.chunk = [] ∨ Json.valid e.chunk = true then some (object e.members) else none

/-- The server-sent event around the JSON text. -/
def frameOf (payload : Json.Bytes) : Json.Bytes :=
  Json.utf8 "data: " ++ payload ++ [0x0A, 0x0A]

/-! ### A frame is one line -/

open Json in
theorem printable_commaSeparated {members : List Bytes} (h : ∀ m ∈ members, Printable m) :
    Printable (commaSeparated members) := by
  fun_induction commaSeparated members with
  | case1 => exact nofun
  | case2 m => exact h m (List.mem_singleton_self m)
  | case3 m ms _ ih =>
      rw [List.forall_mem_cons] at h
      exact printable_append.mpr ⟨printable_append.mpr ⟨h.1, by decide⟩, ih h.2⟩

open Json in
theorem printable_object {members : List Bytes} (h : ∀ m ∈ members, Printable m) :
    Printable (object members) :=
  printable_append.mpr ⟨printable_append.mpr ⟨by decide, printable_commaSeparated h⟩, by decide⟩

open Json in
theorem printable_member (name : String) {value : Bytes} (h : Printable value) :
    Printable (member name value) :=
  printable_append.mpr ⟨printable_append.mpr ⟨printable_encodeString name, by decide⟩, h⟩

open Json in
theorem printable_encodeInt (n : Int) : Printable (encodeInt n) := by
  have hdigits : ∀ k : Nat, Printable (utf8 k.repr) := by
    intro k
    refine printable_flatMap fun c hc => printable_utf8EncodeChar ?_
    rw [Nat.toList_repr] at hc
    have hdigit := Nat.isDigit_of_mem_toDigits (by decide) (by decide) hc
    simp only [Char.isDigit, Bool.and_eq_true, decide_eq_true_eq, ge_iff_le,
      UInt32.le_iff_toNat_le] at hdigit
    exact Nat.le_trans (by decide) hdigit.1
  unfold encodeInt
  rw [Int.toString_eq_repr, Int.repr_eq_if]
  split_ifs
  · exact hdigits _
  · have happend : utf8 ("-" ++ (-n).toNat.repr) = utf8 "-" ++ utf8 (-n).toNat.repr := by
      simp [utf8]
    rw [happend]
    exact printable_append.mpr ⟨by decide, hdigits _⟩

open Json in
theorem printable_encodeError (err : CorrelatedPlatformErrorV4) : Printable (encodeError err) := by
  refine printable_object fun m hm => ?_
  simp only [List.mem_cons, List.not_mem_nil, or_false] at hm
  rcases hm with rfl | rfl | rfl | rfl | rfl <;>
    exact printable_member _ (printable_encodeString _)

open Json in
theorem printable_members (e : InvocationResultStreamEventV2) : ∀ m ∈ e.members, Printable m := by
  intro m hm
  simp only [members, List.mem_append, List.mem_cons, List.not_mem_nil, or_false, List.mem_map,
    List.mem_ite_nil_left, Option.mem_toList] at hm
  rcases hm with ((hm | ⟨i, -, rfl⟩) | ⟨-, rfl⟩) | ⟨err, -, rfl⟩
  · rcases hm with rfl | rfl | rfl | rfl | rfl | rfl | rfl
    · exact printable_member _ (printable_encodeString _)
    · exact printable_member _ (printable_encodeInt _)
    all_goals exact printable_member _ (printable_encodeString _)
  · exact printable_member _ (printable_encodeInt i)
  · exact printable_member _ (printable_compact e.chunk)
  · exact printable_member _ (printable_encodeError err)

/-- The encoded event has no line break. -/
theorem printable_marshal {payload : Json.Bytes} (h : e.marshal = some payload) :
    Json.Printable payload := by
  unfold marshal at h
  split_ifs at h
  cases h
  exact printable_object e.printable_members

end InvocationResultStreamEventV2

end Nekiro
