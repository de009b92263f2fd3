import Mathlib.Data.Int.ConditionallyCompleteOrder
import Mathlib.Data.Prod.Lex
import Nekiro.Target
import Nekiro.TextMap

/-!
# The topology of the instance registry

The values of `registry/model.go`: network endpoints, instances, snapshots
and changes, with their validators. Every constructor sorts what it is given
and refuses what stands twice, and every validator sorts again and compares,
so a valid value is in strict order; `Instance.validate_ok_iff`,
`InstanceSnapshot.validate_ok_iff` and `InstanceChange.validate_ok_iff` say
so, and later modules use only them.

Texts are byte strings and compared as such. A map of texts is the list of
its entries in the order of their keys; a `nil` map is empty, as no function
here tells them apart. Every refusal is the same error: the name of the
field is dropped where it is made (`newInvalidError`).
-/

namespace Nekiro

open Json Guard Strings

namespace Registry

/-! ## Outcomes -/

inductive Outcome where
  | missing
  | invalid
  | unauthorized
  | unavailable
  | stale
  | watchInterrupted
  | canceled
  | closed
deriving Repr, DecidableEq

inductive OutcomeCause where
  | none
  | invalidInput
  | unknownOutcome
  | unknownCause
  | terminalOutcomeRequired
  | resourceVersionExpired
  | deliveryOverflow
  | watchEventTooLarge
  | watchEventInvalid
  | watchStatusError
  | streamEOF
  | httpUnauthorized
  | httpForbidden
  | providerUnavailable
  | rateLimited
deriving Repr, DecidableEq

/-- What `ctx.Err()` reports. -/
inductive ContextError where
  | canceled
  | deadlineExceeded
deriving Repr, DecidableEq

structure OutcomeError where
  outcome : Outcome
  cause : OutcomeCause
  wrapped : Option ContextError
deriving Repr, DecidableEq

def errClosed : OutcomeError := ⟨.closed, .none, none⟩

def errInvalid : OutcomeError := ⟨.invalid, .none, none⟩

def errUnauthorized : OutcomeError := ⟨.unauthorized, .none, none⟩

def errUnavailable : OutcomeError := ⟨.unavailable, .none, none⟩

def validOutcomeCause : Outcome → OutcomeCause → Bool
  | .invalid, cause => cause ∈ [.none, .invalidInput, .unknownOutcome, .unknownCause,
      .terminalOutcomeRequired]
  | .unauthorized, cause => cause ∈ [.none, .httpUnauthorized, .httpForbidden]
  | .unavailable, cause => cause ∈ [.none, .providerUnavailable, .rateLimited]
  | .stale, cause => cause ∈ [.none, .resourceVersionExpired]
  | .watchInterrupted, cause => cause ∈ [.none, .deliveryOverflow, .watchEventTooLarge,
      .watchEventInvalid, .watchStatusError, .streamEOF]
  | .missing, cause | .canceled, cause | .closed, cause => cause = .none

def newOutcomeError (outcome : Outcome) (cause : OutcomeCause) : OutcomeError :=
  if validOutcomeCause outcome cause then ⟨outcome, cause, none⟩
  else ⟨.invalid, .unknownCause, none⟩

def newCanceledError (err : ContextError) : OutcomeError := ⟨.canceled, .none, some err⟩

/-- The name of the field is not kept. -/
def newInvalidError (_field : String) : OutcomeError := ⟨.invalid, .invalidInput, none⟩

/-- An error as a provider may pass it on: none, an outcome (in whatever
text it is wrapped), or any other. -/
inductive ProviderError where
  | none
  | outcome (err : OutcomeError)
  | other
deriving Repr, DecidableEq

def typedTerminal : ProviderError → OutcomeError
  | .none => errClosed
  | .outcome err => newOutcomeError err.outcome err.cause
  | .other => newOutcomeError .invalid .terminalOutcomeRequired

/-- The release of an Agent, for examples. -/
def weatherTarget : ReleaseTarget :=
  ⟨"weather", "1.0.0", "r1", String.ofList (List.replicate 64 '0'),
    utf8 "https://weather.example/a2a", utf8 "https://weather.example"⟩

/-! ## Network endpoints -/

structure NetworkEndpoint where
  addressType : Bytes
  address : Bytes
  portName : Bytes
  port : Int
  protocol : Bytes
deriving Repr, DecidableEq

def addressTypeIPv4 : Bytes := utf8 "IPv4"

def addressTypeIPv6 : Bytes := utf8 "IPv6"

def transportProtocolTCP : Bytes := utf8 "TCP"

variable {left right : NetworkEndpoint} {i : Instance} {instances : List Instance}
  {s : InstanceSnapshot}

namespace NetworkEndpoint

def validate (e : NetworkEndpoint) : Except OutcomeError Unit := do
  require (validExactText e.addressType) (newInvalidError "address_type")
  require (validExactText e.address) (newInvalidError "address")
  require (validExactText e.portName) (newInvalidError "port_name")
  require (1 ≤ e.port ∧ e.port ≤ 65535) (newInvalidError "port")
  require (validExactText e.protocol) (newInvalidError "protocol")

/-- `NewNetworkEndpoint`. -/
def new (input : NetworkEndpoint) : Except OutcomeError NetworkEndpoint := do
  input.validate
  pure input

/-- `compareNetworkEndpoints`, which looks at one field after the other. -/
def compare (left right : NetworkEndpoint) : Int :=
  if left.addressType ≠ right.addressType then
    if byteKey left.addressType < byteKey right.addressType then -1 else 1
  else if left.address ≠ right.address then
    if byteKey left.address < byteKey right.address then -1 else 1
  else if left.portName ≠ right.portName then
    if byteKey left.portName < byteKey right.portName then -1 else 1
  else if left.port ≠ right.port then
    if left.port < right.port then -1 else 1
  else if left.protocol ≠ right.protocol then
    if byteKey left.protocol < byteKey right.protocol then -1 else 1
  else 0

/-- What the comparison looks at, in its order. -/
def sortKey (e : NetworkEndpoint) : List Nat ×ₗ List Nat ×ₗ List Nat ×ₗ Int ×ₗ List Nat :=
  toLex (byteKey e.addressType, toLex (byteKey e.address, toLex (byteKey e.portName,
    toLex (e.port, byteKey e.protocol))))

theorem sortKey_injective : Function.Injective sortKey := by
  rintro ⟨type, address, portName, port, protocol⟩ ⟨type', address', portName', port', protocol'⟩ h
  simp only [sortKey, toLex_inj, Prod.mk.injEq, byteKey_injective.eq_iff] at h
  obtain ⟨rfl, rfl, rfl, rfl, rfl⟩ := h
  rfl

theorem compare_neg_iff : left.compare right < 0 ↔ left.sortKey < right.sortKey := by
  simp only [compare, sortKey, Prod.Lex.toLex_lt_toLex]
  by_cases h₁ : left.addressType = right.addressType
  · by_cases h₂ : left.address = right.address
    · by_cases h₃ : left.portName = right.portName
      · by_cases h₄ : left.port = right.port
        · by_cases h₅ : left.protocol = right.protocol
          · simp [h₁, h₂, h₃, h₄, h₅]
          · simp only [h₁, h₂, h₃, h₄, h₅, ne_eq, not_true_eq_false, not_false_eq_true, if_true,
              if_false, lt_self_iff_false, false_or, true_and]
            split_ifs with hlt <;> simp [hlt]
        · simp only [h₁, h₂, h₃, h₄, ne_eq, not_true_eq_false, not_false_eq_true, if_true, if_false,
            lt_self_iff_false, false_or, true_and, false_and, or_false]
          split_ifs with hlt <;> simp [hlt]
      · have hne : byteKey left.portName ≠ byteKey right.portName :=
          fun heq => h₃ (byteKey_injective heq)
        simp only [h₁, h₂, h₃, hne, ne_eq, not_true_eq_false, not_false_eq_true, if_true, if_false,
          lt_self_iff_false, false_or, true_and, false_and, or_false]
        split_ifs with hlt <;> simp [hlt]
    · have hne : byteKey left.address ≠ byteKey right.address :=
        fun heq => h₂ (byteKey_injective heq)
      simp only [h₁, h₂, hne, ne_eq, not_true_eq_false, not_false_eq_true, if_true, if_false,
        lt_self_iff_false, false_or, true_and, false_and, or_false]
      split_ifs with hlt <;> simp [hlt]
  · have hne : byteKey left.addressType ≠ byteKey right.addressType :=
      fun heq => h₁ (byteKey_injective heq)
    simp only [h₁, hne, ne_eq, not_false_eq_true, if_true, false_and, or_false]
    split_ifs with hlt <;> simp [hlt]

theorem compare_eq_zero_iff : left.compare right = 0 ↔ left = right := by
  obtain ⟨type, address, portName, port, protocol⟩ := left
  obtain ⟨type', address', portName', port', protocol'⟩ := right
  simp only [compare, mk.injEq]
  split_ifs <;> simp_all

def Valid (e : NetworkEndpoint) : Prop := e.validate = .ok ()

theorem validate_ok_iff {e : NetworkEndpoint} :
    e.validate = .ok () ↔ validExactText e.addressType = true ∧ validExactText e.address = true
      ∧ validExactText e.portName = true ∧ (1 ≤ e.port ∧ e.port ≤ 65535)
      ∧ validExactText e.protocol = true := by
  simp only [validate, check_bind_ok_iff, require_ok_iff]

end NetworkEndpoint

/-- Sorting by the comparison is sorting by the key; neighbours with the
same key are equal. -/
def normalizeNetworkEndpoints (endpoints : List NetworkEndpoint) :
    Except OutcomeError (List NetworkEndpoint) := do
  endpoints.forM NetworkEndpoint.validate
  let sorted := sortBy NetworkEndpoint.sortKey endpoints
  require (adjacentTie NetworkEndpoint.sortKey sorted = false)
    (newInvalidError "duplicate_network_endpoint")
  pure sorted

theorem normalizeNetworkEndpoints_ok_iff {endpoints sorted : List NetworkEndpoint} :
    normalizeNetworkEndpoints endpoints = .ok sorted ↔
      (∀ e ∈ endpoints, e.Valid) ∧ endpoints.Nodup
        ∧ sorted = sortBy NetworkEndpoint.sortKey endpoints := by
  simp only [normalizeNetworkEndpoints, check_bind_ok_iff, forM_ok_iff, require_ok_iff,
    adjacentTie_sortBy, List.nodup_map_iff NetworkEndpoint.sortKey_injective]
  refine and_congr_right fun _ => and_congr_right fun _ => ?_
  exact ⟨fun h => (Except.ok.inj h).symm, fun h => h ▸ rfl⟩

/-! ## Instances -/

/-- A `map[string]string`. -/
abbrev StringMap : Type := TextMap Bytes

/-- `equalStringMaps`: a key that is not there reads as the empty text. -/
def equalStringMaps (left right : StringMap) : Bool :=
  left.entries.length = right.entries.length
    && left.entries.all fun e => (right.get e.1).getD [] = e.2

/-- Maps without empty values are compared as maps. -/
theorem equalStringMaps_iff {left right : StringMap} (h : ∀ e ∈ left.entries, e.2 ≠ []) :
    equalStringMaps left right = true ↔ left = right := by
  rw [equalStringMaps, Bool.and_eq_true, decide_eq_true_eq, List.all_eq_true]
  constructor
  · rintro ⟨hlength, hall⟩
    have hsubset : left.entries ⊆ right.entries := by
      intro e he
      have hget := of_decide_eq_true (hall e he)
      cases hfound : right.get e.1 with
      | none =>
          rw [hfound] at hget
          exact absurd hget.symm (h e he)
      | some value =>
          rw [hfound, Option.getD_some] at hget
          rw [hget] at hfound
          exact TextMap.get_eq_some_iff.mp hfound
    have hperm : left.entries.Perm right.entries :=
      (List.subperm_of_subset left.inOrder.nodup.of_map hsubset).perm_of_length_le hlength.ge
    exact TextMap.ext (left.inOrder.ext right.inOrder fun e => hperm.mem_iff)
  · rintro rfl
    refine ⟨rfl, fun e he => ?_⟩
    rw [TextMap.get_eq_some_iff.mpr he]
    simp

theorem optionAll_iff {α : Type} {p : α → Bool} {o : Option α} :
    o.all p = true ↔ ∀ a ∈ o, p a = true := by
  cases o <;> simp

inductive LifecycleState where
  | ready
  | unavailable
  | draining
deriving Repr, DecidableEq

def deriveLifecycleState (ready serving terminating : Bool) : LifecycleState :=
  if terminating && serving then .draining
  else if !terminating && serving && ready then .ready
  else .unavailable

structure Instance where
  id : Bytes
  endpoints : List NetworkEndpoint
  ready : Bool
  serving : Bool
  terminating : Bool
  state : LifecycleState
  zone : Option Bytes
  weight : Option Int
  metadata : StringMap
deriving DecidableEq

namespace Instance

def validate (i : Instance) : Except OutcomeError Unit := do
  require (validExactText i.id) (newInvalidError "instance_id")
  require (i.endpoints ≠ []) (newInvalidError "network_endpoints")
  let endpoints ← normalizeNetworkEndpoints i.endpoints
  require (endpoints.length = i.endpoints.length) (newInvalidError "network_endpoints")
  require (endpoints = i.endpoints) (newInvalidError "network_endpoints_not_sorted")
  require (i.state = deriveLifecycleState i.ready i.serving i.terminating)
    (newInvalidError "lifecycle_state")
  require (i.zone.all validExactText) (newInvalidError "zone")
  require (i.metadata.entries.all fun e => validExactText e.1 && validExactText e.2)
    (newInvalidError "metadata")

/-- `InstanceInput`; its state is left to be derived. -/
structure Input where
  id : Bytes
  endpoints : List NetworkEndpoint
  ready : Bool
  serving : Bool
  terminating : Bool
  zone : Option Bytes
  weight : Option Int
  metadata : StringMap

/-- `NewInstance`. -/
def new (input : Input) : Except OutcomeError Instance := do
  let endpoints ← normalizeNetworkEndpoints input.endpoints
  let i : Instance := {
    id := input.id
    endpoints := endpoints
    ready := input.ready
    serving := input.serving
    terminating := input.terminating
    state := deriveLifecycleState input.ready input.serving input.terminating
    zone := input.zone
    weight := input.weight
    metadata := input.metadata }
  i.validate
  pure i

/-- `Instance.Equal`. -/
def equal (i other : Instance) : Bool :=
  i.id = other.id && i.ready = other.ready && i.serving = other.serving
    && i.terminating = other.terminating && i.state = other.state && i.zone = other.zone
    && i.weight = other.weight && equalStringMaps i.metadata other.metadata
    && i.endpoints = other.endpoints

structure Valid (i : Instance) : Prop where
  id : validExactText i.id = true
  nonEmpty : i.endpoints ≠ []
  endpoint : ∀ e ∈ i.endpoints, e.Valid
  inOrder : InOrder NetworkEndpoint.sortKey i.endpoints
  state : i.state = deriveLifecycleState i.ready i.serving i.terminating
  zone : ∀ zone ∈ i.zone, validExactText zone = true
  metadata : ∀ e ∈ i.metadata.entries, validExactText e.1 = true ∧ validExactText e.2 = true

theorem validate_ok_iff : i.validate = .ok () ↔ i.Valid := by
  rw [validate, check_bind_ok_iff, check_bind_ok_iff, bind_ok_iff]
  simp only [check_bind_ok_iff, require_ok_iff, normalizeNetworkEndpoints_ok_iff, List.all_eq_true,
    Bool.and_eq_true, optionAll_iff]
  constructor
  · rintro ⟨hid, hnonEmpty, _, ⟨hvalid, hnodup, rfl⟩, -, heq, hstate, hzone, hmetadata⟩
    have hinOrder := inOrder_sortBy
      ((List.nodup_map_iff NetworkEndpoint.sortKey_injective).mpr hnodup)
    rw [heq] at hinOrder
    exact ⟨hid, hnonEmpty, hvalid, hinOrder, hstate, hzone, hmetadata⟩
  · intro h
    have hsorted := sortBy_eq_self h.inOrder
    exact ⟨h.id, h.nonEmpty, _, ⟨h.endpoint, h.inOrder.nodup.of_map, rfl⟩, by rw [hsorted], hsorted,
      h.state, h.zone, h.metadata⟩

/-- Valid instances are compared as values. -/
theorem Valid.equal_iff {other : Instance} (h : i.Valid) : i.equal other = true ↔ i = other := by
  have hmetadata := @equalStringMaps_iff i.metadata other.metadata fun e he hnil => by
    have hvalid := (h.metadata e he).2
    rw [hnil] at hvalid
    cases hvalid
  obtain ⟨id, endpoints, ready, serving, terminating, state, zone, weight, metadata⟩ := i
  obtain ⟨id', endpoints', ready', serving', terminating', state', zone', weight', metadata'⟩ :=
    other
  simp only [equal, Bool.and_eq_true, decide_eq_true_eq, hmetadata, mk.injEq]
  tauto

theorem new_ok_iff {input : Input} :
    new input = .ok i ↔ (∀ e ∈ input.endpoints, e.Valid) ∧ input.endpoints.Nodup ∧ i.Valid
      ∧ i = ⟨input.id, sortBy NetworkEndpoint.sortKey input.endpoints, input.ready, input.serving,
        input.terminating, deriveLifecycleState input.ready input.serving input.terminating,
        input.zone, input.weight, input.metadata⟩ := by
  rw [new, bind_ok_iff]
  simp only [check_bind_ok_iff, normalizeNetworkEndpoints_ok_iff, validate_ok_iff]
  constructor
  · rintro ⟨_, ⟨hvalid, hnodup, rfl⟩, hi, heq⟩
    cases heq
    exact ⟨hvalid, hnodup, hi, rfl⟩
  · rintro ⟨hvalid, hnodup, hi, rfl⟩
    exact ⟨_, ⟨hvalid, hnodup, rfl⟩, hi, rfl⟩

end Instance

/-- The ID of an instance, as IDs are compared. -/
def idKey (i : Instance) : List Nat := byteKey i.id

def normalizeInstances (instances : List Instance) : Except OutcomeError (List Instance) := do
  instances.forM Instance.validate
  let sorted := sortBy idKey instances
  require (adjacentTie idKey sorted = false) (newInvalidError "duplicate_instance_id")
  pure sorted

theorem normalizeInstances_ok_iff {sorted : List Instance} :
    normalizeInstances instances = .ok sorted ↔
      (∀ i ∈ instances, i.Valid) ∧ (instances.map idKey).Nodup
        ∧ sorted = sortBy idKey instances := by
  simp only [normalizeInstances, check_bind_ok_iff, forM_ok_iff, require_ok_iff, adjacentTie_sortBy,
    Instance.validate_ok_iff]
  refine and_congr_right fun _ => and_congr_right fun _ => ?_
  exact ⟨fun h => (Except.ok.inj h).symm, fun h => h ▸ rfl⟩

/-- `equalInstances`. -/
def equalInstances (left right : List Instance) : Bool :=
  left.length = right.length && (left.zip right).all fun p => p.1.equal p.2

theorem equalInstances_iff {left right : List Instance} (h : ∀ i ∈ left, i.Valid) :
    equalInstances left right = true ↔ left = right := by
  rw [equalInstances, Bool.and_eq_true, decide_eq_true_eq]
  induction left generalizing right with
  | nil => simp [eq_comm]
  | cons i left ih =>
      cases right with
      | nil => simp
      | cons i' right =>
          obtain ⟨hi, hleft⟩ := List.forall_mem_cons.mp h
          rw [List.zip_cons_cons, List.all_cons, Bool.and_eq_true, hi.equal_iff, List.cons.injEq,
            ← ih hleft, List.length_cons, List.length_cons, Nat.succ_inj]
          tauto

/-! ## Snapshots -/

inductive SnapshotState where
  | missing
  | empty
  | populated
deriving Repr, DecidableEq

/-- The local order is a `uint64`. -/
structure Revision where
  sourceTokens : List Bytes
  localOrder : UInt64
deriving DecidableEq

namespace Revision

def validate (r : Revision) : Except OutcomeError Unit := do
  require (r.sourceTokens ≠ []) (newInvalidError "revision_source_tokens")
  require (r.sourceTokens.all validExactText) (newInvalidError "revision_source_token")

/-- `NewRevision`. -/
def new (input : Revision) : Except OutcomeError Revision := do
  input.validate
  pure input

def Valid (r : Revision) : Prop :=
  r.sourceTokens ≠ [] ∧ ∀ t ∈ r.sourceTokens, validExactText t = true

theorem validate_ok_iff {r : Revision} : r.validate = .ok () ↔ r.Valid := by
  simp only [validate, check_bind_ok_iff, require_ok_iff, List.all_eq_true, Valid]

end Revision

structure InstanceSnapshot where
  target : ReleaseTarget
  revision : Revision
  state : SnapshotState
  instances : List Instance
deriving DecidableEq

namespace InstanceSnapshot

variable [UnicodeCase]

/-- The target says which field it refuses; the error says only that. -/
def validateTarget (t : ReleaseTarget) : Except OutcomeError Unit :=
  match t.validate with
  | .ok () => .ok ()
  | .error field => .error (newInvalidError field)

theorem validateTarget_ok_iff {t : ReleaseTarget} :
    validateTarget t = .ok () ↔ t.validate = .ok () := by
  unfold validateTarget
  cases t.validate <;> simp

def validate (s : InstanceSnapshot) : Except OutcomeError Unit := do
  validateTarget s.target
  s.revision.validate
  let instances ← normalizeInstances s.instances
  require (instances.length = s.instances.length) (newInvalidError "instances")
  require (equalInstances instances s.instances) (newInvalidError "instances_not_sorted")
  match s.state with
  | .missing | .empty => require (s.instances = []) (newInvalidError "snapshot_state")
  | .populated => require (s.instances ≠ []) (newInvalidError "snapshot_state")

/-- `NewInstanceSnapshot`. -/
def new (input : InstanceSnapshot) : Except OutcomeError InstanceSnapshot := do
  let instances ← normalizeInstances input.instances
  let s : InstanceSnapshot := { input with instances := instances }
  s.validate
  pure s

structure Valid (s : InstanceSnapshot) : Prop where
  target : s.target.validate = .ok ()
  revision : s.revision.Valid
  instance_ : ∀ i ∈ s.instances, i.Valid
  inOrder : InOrder idKey s.instances
  state : s.state = .populated ↔ s.instances ≠ []

theorem validate_ok_iff : s.validate = .ok () ↔ s.Valid := by
  have hstate : (match s.state with
      | .missing | .empty => require (s.instances = []) (newInvalidError "snapshot_state")
      | .populated => require (s.instances ≠ []) (newInvalidError "snapshot_state")) = .ok () ↔
      (s.state = .populated ↔ s.instances ≠ []) := by
    cases s.state <;> simp
  rw [validate, check_bind_ok_iff, check_bind_ok_iff, bind_ok_iff, validateTarget_ok_iff,
    Revision.validate_ok_iff]
  simp only [check_bind_ok_iff, require_ok_iff, normalizeInstances_ok_iff, hstate]
  constructor
  · rintro ⟨htarget, hrevision, _, ⟨hvalid, hnodup, rfl⟩, -, hequal, hpopulated⟩
    have hsorted := (equalInstances_iff fun i hi => hvalid i (mem_sortBy.mp hi)).mp hequal
    have hinOrder := inOrder_sortBy hnodup
    rw [hsorted] at hinOrder
    exact ⟨htarget, hrevision, hvalid, hinOrder, hpopulated⟩
  · intro h
    have hsorted := sortBy_eq_self h.inOrder
    refine ⟨h.target, h.revision, _, ⟨h.instance_, h.inOrder.nodup, rfl⟩, by rw [hsorted],
      ?_, h.state⟩
    rw [hsorted]
    exact (equalInstances_iff h.instance_).mpr rfl

theorem new_ok_iff {input : InstanceSnapshot} :
    new input = .ok s ↔ (∀ i ∈ input.instances, i.Valid) ∧ (input.instances.map idKey).Nodup
      ∧ s.Valid ∧ s = { input with instances := sortBy idKey input.instances } := by
  rw [new, bind_ok_iff]
  simp only [check_bind_ok_iff, normalizeInstances_ok_iff, validate_ok_iff]
  constructor
  · rintro ⟨_, ⟨hvalid, hnodup, rfl⟩, hs, heq⟩
    cases heq
    exact ⟨hvalid, hnodup, hs, rfl⟩
  · rintro ⟨hvalid, hnodup, hs, rfl⟩
    exact ⟨_, ⟨hvalid, hnodup, rfl⟩, hs, rfl⟩

/-- A snapshot that is populated if there are instances. -/
theorem new_listed_ok_iff {target : ReleaseTarget} {revision : Revision} {instances : List Instance}
    {s : InstanceSnapshot} (htarget : target.validate = .ok ()) (hrevision : revision.Valid)
    (hvalid : ∀ i ∈ instances, i.Valid) :
    new ⟨target, revision, if instances = [] then .empty else .populated, instances⟩ = .ok s ↔
      (instances.map idKey).Nodup ∧ s = ⟨target, revision,
        if instances = [] then .empty else .populated, sortBy idKey instances⟩ := by
  rw [new_ok_iff]
  constructor
  · rintro ⟨-, hnodup, -, rfl⟩
    exact ⟨hnodup, rfl⟩
  · rintro ⟨hnodup, rfl⟩
    refine ⟨hvalid, hnodup, ⟨htarget, hrevision, fun i hi => hvalid i (mem_sortBy.mp hi),
      inOrder_sortBy hnodup, ?_⟩, rfl⟩
    rw [ne_eq, sortBy_eq_nil_iff]
    split_ifs with hempty <;> simp [hempty]

end InstanceSnapshot

/-! ## Changes -/

inductive InstanceChangeKind where
  | instancesChanged
  | stateChanged
  | targetDeleted
deriving Repr, DecidableEq

/-- No previous state is the empty text. -/
structure InstanceChange where
  kind : InstanceChangeKind
  revision : Revision
  upserts : List Instance
  deletedInstanceIDs : List Bytes
  previousState : Option SnapshotState
  snapshot : InstanceSnapshot
deriving DecidableEq

def normalizeDeletedInstanceIDs (ids : List Bytes) : Except OutcomeError (List Bytes) := do
  require (ids.all validExactText) (newInvalidError "deleted_instance_id")
  let sorted := sortBy byteKey ids
  require (adjacentTie byteKey sorted = false) (newInvalidError "duplicate_deleted_instance_id")
  pure sorted

theorem normalizeDeletedInstanceIDs_ok_iff {ids sorted : List Bytes} :
    normalizeDeletedInstanceIDs ids = .ok sorted ↔
      (∀ id ∈ ids, validExactText id = true) ∧ ids.Nodup ∧ sorted = sortBy byteKey ids := by
  simp only [normalizeDeletedInstanceIDs, check_bind_ok_iff, require_ok_iff, List.all_eq_true,
    adjacentTie_sortBy, List.nodup_map_iff byteKey_injective]
  refine and_congr_right fun _ => and_congr_right fun _ => ?_
  exact ⟨fun h => (Except.ok.inj h).symm, fun h => h ▸ rfl⟩

namespace InstanceChange

/-- The row of an ID in the map of the snapshot's instances. -/
def instanceByID (instances : List Instance) (id : Bytes) : Option Instance :=
  instances.reverse.find? fun i => i.id = id

def validateUpsert (instances : List Instance) (i : Instance) : Except OutcomeError Unit :=
  match instanceByID instances i.id with
  | none => .error (newInvalidError "upsert_missing_from_snapshot")
  | some result => require (i.equal result) (newInvalidError "upsert_does_not_match_snapshot")

def validateDeleted (instances : List Instance) (id : Bytes) : Except OutcomeError Unit :=
  require (instanceByID instances id = none)
    (newInvalidError "deleted_instance_present_in_snapshot")

def validateKind (c : InstanceChange) : Except OutcomeError Unit :=
  match c.kind with
  | .instancesChanged => do
      require (¬(c.upserts = [] ∧ c.deletedInstanceIDs = []))
        (newInvalidError "empty_instance_change")
      require (c.previousState = none) (newInvalidError "instances_changed_previous_state")
  | .stateChanged => do
      require (c.previousState ≠ none ∧ c.previousState ≠ some c.snapshot.state
        ∧ c.previousState ≠ some .populated ∧ c.snapshot.state ≠ .populated)
        (newInvalidError "state_change_previous_state")
      require (c.upserts = [] ∧ c.deletedInstanceIDs = []) (newInvalidError "state_change_delta")
  | .targetDeleted =>
      require (c.previousState = none ∧ c.snapshot.state = .missing ∧ c.upserts = []
        ∧ c.deletedInstanceIDs = []) (newInvalidError "target_deleted_change")

variable [UnicodeCase]

def validate (c : InstanceChange) : Except OutcomeError Unit := do
  c.revision.validate
  require (c.revision.localOrder ≠ 0) (newInvalidError "change_local_order")
  c.snapshot.validate
  require (c.revision = c.snapshot.revision) (newInvalidError "change_snapshot_revision")
  let upserts ← normalizeInstances c.upserts
  require (equalInstances upserts c.upserts) (newInvalidError "upserts_not_sorted")
  let deletedIDs ← normalizeDeletedInstanceIDs c.deletedInstanceIDs
  require (deletedIDs = c.deletedInstanceIDs) (newInvalidError "deleted_instance_ids_not_sorted")
  c.upserts.forM (validateUpsert c.snapshot.instances)
  c.deletedInstanceIDs.forM (validateDeleted c.snapshot.instances)
  c.validateKind

/-- `NewInstanceChange`. -/
def new (input : InstanceChange) : Except OutcomeError InstanceChange := do
  let upserts ← normalizeInstances input.upserts
  let deletedIDs ← normalizeDeletedInstanceIDs input.deletedInstanceIDs
  let c : InstanceChange := { input with upserts := upserts, deletedInstanceIDs := deletedIDs }
  c.validate
  pure c

structure Valid (c : InstanceChange) : Prop where
  localOrder : c.revision.localOrder ≠ 0
  snapshot : c.snapshot.Valid
  revision : c.revision = c.snapshot.revision
  upserts : InOrder idKey c.upserts
  upsert : ∀ i ∈ c.upserts, i ∈ c.snapshot.instances
  deletedIDs : InOrder byteKey c.deletedInstanceIDs
  deletedID : ∀ id ∈ c.deletedInstanceIDs, validExactText id = true
    ∧ ∀ i ∈ c.snapshot.instances, i.id ≠ id
  kind : c.validateKind = .ok ()

omit [UnicodeCase] in
theorem instanceByID_eq_some_iff (h : InOrder idKey instances) {id : Bytes} :
    instanceByID instances id = some i ↔ i ∈ instances ∧ i.id = id := by
  have hnodup : (instances.reverse.map Instance.id).Nodup := by
    have hkeys := h.nodup
    rw [show idKey = byteKey ∘ Instance.id from rfl, ← List.map_map] at hkeys
    rw [List.map_reverse, List.nodup_reverse]
    exact hkeys.of_map
  unfold instanceByID
  rw [Table.find?_eq_some_iff hnodup, List.mem_reverse]

omit [UnicodeCase] in
theorem instanceByID_eq_none_iff {id : Bytes} :
    instanceByID instances id = none ↔ ∀ i ∈ instances, i.id ≠ id := by
  simp [instanceByID]

omit [UnicodeCase] in
theorem validateUpsert_ok_iff (h : InOrder idKey instances) (hi : i.Valid) :
    validateUpsert instances i = .ok () ↔ i ∈ instances := by
  unfold validateUpsert
  cases hfound : instanceByID instances i.id with
  | none =>
      have hnone := instanceByID_eq_none_iff.mp hfound
      simp only [reduceCtorEq, false_iff]
      exact fun hmem => hnone i hmem rfl
  | some result =>
      obtain ⟨hresult, hid⟩ := (instanceByID_eq_some_iff h).mp hfound
      simp only [require_ok_iff, hi.equal_iff]
      constructor
      · rintro rfl
        exact hresult
      · exact fun hmem => Table.eq_of_key h.nodup hmem hresult (congrArg byteKey hid.symm)

theorem validate_ok_iff {c : InstanceChange} : c.validate = .ok () ↔ c.Valid := by
  rw [validate, check_bind_ok_iff, check_bind_ok_iff, check_bind_ok_iff, check_bind_ok_iff,
    bind_ok_iff, Revision.validate_ok_iff, InstanceSnapshot.validate_ok_iff]
  simp only [require_ok_iff, normalizeInstances_ok_iff]
  constructor
  · rintro ⟨hrevision, horder, hsnapshot, heq, _, ⟨hvalid, hnodup, rfl⟩, h⟩
    rw [check_bind_ok_iff, bind_ok_iff] at h
    simp only [require_ok_iff, check_bind_ok_iff, normalizeDeletedInstanceIDs_ok_iff, forM_ok_iff]
      at h
    obtain ⟨hequal, _, ⟨hids, hidsNodup, rfl⟩, hidsEq, hupserts, hdeleted, hkind⟩ := h
    have hsorted := (equalInstances_iff fun i hi => hvalid i (mem_sortBy.mp hi)).mp hequal
    have hinOrder := inOrder_sortBy hnodup
    have hidsOrder := inOrder_sortBy ((List.nodup_map_iff byteKey_injective).mpr hidsNodup)
    rw [hsorted] at hinOrder
    rw [hidsEq] at hidsOrder
    refine ⟨horder, hsnapshot, heq, hinOrder, fun i hi => ?_, hidsOrder, fun id hid => ?_, hkind⟩
    · exact (validateUpsert_ok_iff hsnapshot.inOrder (hvalid i hi)).mp (hupserts i hi)
    · exact ⟨hids id hid, instanceByID_eq_none_iff.mp (require_ok_iff.mp (hdeleted id hid))⟩
  · intro h
    have hvalid : ∀ i ∈ c.upserts, i.Valid := fun i hi => h.snapshot.instance_ i (h.upsert i hi)
    have hsorted := sortBy_eq_self h.upserts
    have hidsSorted := sortBy_eq_self h.deletedIDs
    refine ⟨h.revision ▸ h.snapshot.revision, h.localOrder, h.snapshot, h.revision, _,
      ⟨hvalid, h.upserts.nodup, rfl⟩, ?_⟩
    rw [check_bind_ok_iff, bind_ok_iff, hsorted]
    simp only [require_ok_iff, check_bind_ok_iff, normalizeDeletedInstanceIDs_ok_iff, forM_ok_iff]
    refine ⟨(equalInstances_iff hvalid).mpr rfl, _, ⟨fun id hid => (h.deletedID id hid).1,
      h.deletedIDs.nodup.of_map, rfl⟩, hidsSorted, fun i hi => ?_, fun id hid => ?_, h.kind⟩
    · exact (validateUpsert_ok_iff h.snapshot.inOrder (hvalid i hi)).mpr (h.upsert i hi)
    · exact require_ok_iff.mpr (instanceByID_eq_none_iff.mpr (h.deletedID id hid).2)

theorem new_ok_iff {input c : InstanceChange} :
    new input = .ok c ↔ (∀ i ∈ input.upserts, i.Valid) ∧ (input.upserts.map idKey).Nodup
      ∧ (∀ id ∈ input.deletedInstanceIDs, validExactText id = true) ∧ input.deletedInstanceIDs.Nodup
      ∧ c.Valid ∧ c = { input with
        upserts := sortBy idKey input.upserts
        deletedInstanceIDs := sortBy byteKey input.deletedInstanceIDs } := by
  rw [new, bind_ok_iff]
  simp only [normalizeInstances_ok_iff]
  constructor
  · rintro ⟨_, ⟨hvalid, hnodup, rfl⟩, h⟩
    rw [bind_ok_iff] at h
    simp only [check_bind_ok_iff, normalizeDeletedInstanceIDs_ok_iff, validate_ok_iff] at h
    obtain ⟨_, ⟨hids, hidsNodup, rfl⟩, hc, heq⟩ := h
    cases heq
    exact ⟨hvalid, hnodup, hids, hidsNodup, hc, rfl⟩
  · rintro ⟨hvalid, hnodup, hids, hidsNodup, hc, rfl⟩
    refine ⟨_, ⟨hvalid, hnodup, rfl⟩, ?_⟩
    rw [bind_ok_iff]
    simp only [check_bind_ok_iff, normalizeDeletedInstanceIDs_ok_iff, validate_ok_iff]
    exact ⟨_, ⟨hids, hidsNodup, rfl⟩, hc, rfl⟩

end InstanceChange

end Registry

end Nekiro
