import Nekiro.KubernetesTopology
import Nekiro.TopologyDelta
import Nekiro.WatchDelivery

/-!
# Observing a service

An observation session reads the events of two sources, of the service and
of its endpoint slices, and publishes a change whenever the public topology
differs from the one it has published last. Each event is taken in under
the lock of the session; failing, closing and what the consumer does come
in between, in any order.

`Accepts` lists what can come of an event, and the results go over it. The
published changes lead from one snapshot to the next (`Chained`); after an
event that was taken in the current snapshot is what a fresh one would be
(`Session.Fresh`); and the topology state is the fold of the events of each
source, whatever the order between them (`Folded`).
-/

namespace Nekiro

open Json Guard Strings

namespace Registry

namespace Kubernetes

inductive WatchSource where
  | service
  | endpointSlice
deriving DecidableEq

structure WireWatchEvent where
  type : String
  object : Bytes

/-! ## Events and the topology state -/

def countEndpoints (slices : TextMap SliceRecord) : Nat :=
  (slices.entries.map fun slice => slice.2.endpoints.length).sum

/-- A slice that is not there has no endpoints. -/
def endpointCountForSlice (slice : Option SliceRecord) : Nat :=
  (slice.map fun record => record.endpoints.length).getD 0

/-- What an event says, stored in the state; an error leaves the state as
it is at that point. -/
def applyEvent (binding : Binding) (state : TopologyState) (source : WatchSource)
    (event : WireWatchEvent) : Option OutcomeError × TopologyState :=
  match source with
  | .service =>
      if event.type = "ADDED" ∨ event.type = "MODIFIED" ∨ event.type = "DELETED" then
        match decodeServiceObject event.object binding true with
        | .error err => (some err, state)
        | .ok service => (none, { state with
            servicePresent := event.type ≠ "DELETED"
            serviceResourceVersion := utf8 service.metadata.resourceVersion })
      else (some invalidInput, state)
  | .endpointSlice =>
      if event.type = "ADDED" ∨ event.type = "MODIFIED" then
        match decodeEndpointSliceObject event.object binding true with
        | .error err => (some err, state)
        | .ok record =>
            if binding.bounds.endpointSliceCount ≤ state.slices.entries.length
                ∧ state.slices.get record.uid = none then (some invalidInput, state)
            else if binding.bounds.endpointCount < (countEndpoints state.slices : Int)
                - endpointCountForSlice (state.slices.get record.uid) + record.endpoints.length then
              (some invalidInput, state)
            else
              let next := { state with
                slices := state.slices.put record.uid record
                endpointResourceVersion := resourceVersionFromEvent event.object }
              (if validResourceVersion next.endpointResourceVersion then none
                else some invalidInput, next)
      else if event.type = "DELETED" then
        match decodeEndpointSliceDelete event.object binding true with
        | .error err => (some err, state)
        | .ok (uid, resourceVersion) => (none, { state with
            slices := state.slices.erase uid
            endpointResourceVersion := resourceVersion })
      else (some invalidInput, state)

/-! ## Sessions -/

/-- Also the map of the previous instances is ranged over. -/
structure SessionOrder extends RangeOrder where
  ids : List Bytes → List Bytes
  ids_perm : ∀ l, (ids l).Perm l

/-- The bodies of the responses, the barrier at the start and the directory
are left out. -/
structure Session where
  binding : Binding
  target : ReleaseTarget
  state : TopologyState
  current : InstanceSnapshot
  terminal : Option OutcomeError
  targetDeleted : Bool
  stopped : Bool
  inner : WatchSystem

/-- What came of an event. `acceptEvent` returns an error if it was
rejected, or accepted and not published. -/
inductive AcceptOutcome where
  | ignored
  | rejected (err : OutcomeError)
  | quiet
  | unpublished (err : OutcomeError)
  | published (change : InstanceChange)
deriving DecidableEq

namespace AcceptOutcome

/-- The event was taken in, and `acceptEvent` returned `nil`. -/
def Accepted : AcceptOutcome → Bool
  | quiet | published _ => true
  | ignored | rejected _ | unpublished _ => false

def change : AcceptOutcome → Option InstanceChange
  | published change => some change
  | _ => none

end AcceptOutcome

namespace Session

variable [UnicodeCase]

def publishChange (s : Session) (input : InstanceChange) (next : InstanceSnapshot)
    (targetDeleted : Bool) : AcceptOutcome × Session :=
  match InstanceChange.new input with
  | .error err => (.unpublished err, s)
  | .ok change =>
      match s.inner.watch.publish change with
      | (.error err, w) => (.unpublished err, { s with inner := { s.inner with watch := w } })
      | (.ok (), w) => (.published change, { s with
          inner := { s.inner with watch := w }
          current := next
          targetDeleted := targetDeleted })

def emitCurrentState (s : Session) (order : SessionOrder) : AcceptOutcome × Session :=
  match s.state.snapshot order.toRangeOrder s.target (s.current.revision.localOrder + 1) with
  | .error err => (.rejected err, s)
  | .ok next =>
      if samePublicTopology s.current next then (.quiet, s)
      else s.publishChange
        (kubernetesChange s.current next (order.ids (s.current.instances.map Instance.id)))
          next false

def emitTargetDeleted (s : Session) (order : SessionOrder) : AcceptOutcome × Session :=
  match s.state.snapshot order.toRangeOrder s.target (s.current.revision.localOrder + 1) with
  | .error err => (.rejected err, s)
  | .ok next => s.publishChange ⟨.targetDeleted, next.revision, [], [], none, next⟩ next true

def acceptEvent (s : Session) (order : SessionOrder) (source : WatchSource)
    (event : WireWatchEvent) :
    AcceptOutcome × Session :=
  if s.terminal ≠ none ∨ s.targetDeleted then (.ignored, s)
  else match applyEvent s.binding s.state source event with
    | (some err, state) => (.rejected err, { s with state := state })
    | (none, state) =>
        if source = .service ∧ event.type = "DELETED" then
          { s with state := state }.emitTargetDeleted order
        else { s with state := state }.emitCurrentState order

/-- The first part of `fail`, under the lock. -/
def fail (s : Session) (err : ProviderError) : Session :=
  if s.targetDeleted ∨ s.terminal ≠ none then s else { s with terminal := some (typedTerminal err) }

/-- The first part of `close`, under the lock. -/
def close (s : Session) : Session :=
  if s.targetDeleted ∨ s.terminal ≠ none then s else { s with terminal := some errClosed }

/-- `stopOnce` with the terminal outcome, which `fail` and `close` come to
after they have left the lock. -/
def stop (s : Session) (err : OutcomeError) : Session :=
  if s.stopped then s
  else { s with
    stopped := true
    inner := { s.inner with watch := s.inner.watch.terminate (.outcome err) } }

end Session

inductive ObservationEvent where
  | accepted (source : WatchSource) (event : WireWatchEvent) (outcome : AcceptOutcome)
  | failed (err : ProviderError)
  | closed
  | stopped
  | finished
  | consumed (event : WatchEvent)

namespace ObservationEvent

def outcome : ObservationEvent → Option AcceptOutcome
  | accepted _ _ outcome => some outcome
  | _ => none

/-- The event of this source, if it is one. -/
def sourceEvent (source : WatchSource) : ObservationEvent → Option WireWatchEvent
  | accepted source' event _ => if source' = source then some event else none
  | _ => none

end ObservationEvent

/-- The moves of a consumer: it calls `Next` or its context ends. -/
def Consumes : WatchEvent → Bool
  | .started _ | .contextEnded _ _ | .stepped _ _ => true
  | .published _ _ | .terminated _ | .closed => false

inductive ObservationMoves [UnicodeCase] : Session → ObservationEvent → Session → Prop
  | accept (s : Session) (order : SessionOrder) (source : WatchSource) (event : WireWatchEvent) :
      ObservationMoves s (.accepted source event (s.acceptEvent order source event).1)
        (s.acceptEvent order source event).2
  | fail (s : Session) (err : ProviderError) : ObservationMoves s (.failed err) (s.fail err)
  | close (s : Session) : ObservationMoves s .closed s.close
  | stop (s : Session) {err : OutcomeError} : s.terminal = some err →
      ObservationMoves s .stopped (s.stop err)
  | finish (s : Session) : s.targetDeleted = true →
      ObservationMoves s .finished { s with stopped := true }
  | consume (s : Session) {e : WatchEvent} {inner : WatchSystem} : Consumes e = true →
      WatchMoves s.inner e inner → ObservationMoves s (.consumed e) { s with inner := inner }

abbrev ObservationRun [UnicodeCase] : Session → List ObservationEvent → Session → Prop :=
  Run ObservationMoves

/-- The two lists that a session starts from. -/
def acquireLists (binding : Binding) (order : RangeOrder) (servicePayload endpointPayload : Bytes) :
    Except OutcomeError TopologyState := do
  let service ← decodeServiceList servicePayload binding
  let endpoint ← decodeEndpointSliceList endpointPayload binding
  let state : TopologyState := ⟨service.1, service.2, endpoint.2, endpoint.1⟩
  let _ ← state.instances order
  pure state

/-- The session of `Observe`. -/
def newObservationSession [UnicodeCase] (binding : Binding) (target : ReleaseTarget)
    (order : RangeOrder) (servicePayload endpointPayload : Bytes) :
    Except OutcomeError Session := do
  let state ← acquireLists binding order servicePayload endpointPayload
  let initial ← state.snapshot order target 0
  let watch ← newInstanceWatch binding.bounds.pendingChanges
  pure ⟨binding, target, state, initial, none, false, false, ⟨watch, []⟩⟩

/-! ## What an event does to the topology state -/

/-- The state after an event of this source that is well formed. -/
inductive StateChanges (binding : Binding) (state : TopologyState) :
    WatchSource → TopologyState → Prop
  | service {present : Bool} {resourceVersion : Bytes} :
      validResourceVersion resourceVersion = true →
      StateChanges binding state .service
        { state with servicePresent := present, serviceResourceVersion := resourceVersion }
  | put {record : SliceRecord} {resourceVersion : Bytes} :
      (∀ r ∈ record.endpoints, r.Normalized binding) → validResourceVersion resourceVersion = true →
      ¬(binding.bounds.endpointSliceCount ≤ state.slices.entries.length
        ∧ state.slices.get record.uid = none) →
      (countEndpoints state.slices : Int) - endpointCountForSlice (state.slices.get record.uid)
        + record.endpoints.length ≤ binding.bounds.endpointCount →
      StateChanges binding state .endpointSlice { state with
        slices := state.slices.put record.uid record, endpointResourceVersion := resourceVersion }
  | erase {uid resourceVersion : Bytes} : validResourceVersion resourceVersion = true →
      StateChanges binding state .endpointSlice { state with
        slices := state.slices.erase uid, endpointResourceVersion := resourceVersion }

section Apply

variable {binding : Binding} {state next : TopologyState} {source : WatchSource}
  {event : WireWatchEvent}

theorem decodeServiceObject_version {payload : Bytes} {service : WireService}
    (h : decodeServiceObject payload binding true = .ok service) :
    validResourceVersion (utf8 service.metadata.resourceVersion) = true := by
  unfold decodeServiceObject at h
  obtain ⟨service', -, h⟩ := bind_ok_iff.mp h
  obtain ⟨hvalid, h⟩ := check_bind_ok_iff.mp h
  cases h
  exact (require_ok_iff.mp hvalid).2.2.2.2.1 rfl

theorem decodeEndpointSliceDelete_version {payload uid resourceVersion : Bytes}
    (h : decodeEndpointSliceDelete payload binding true = .ok (uid, resourceVersion)) :
    validResourceVersion resourceVersion = true := by
  unfold decodeEndpointSliceDelete validateEndpointSliceIdentity at h
  obtain ⟨slice, -, h⟩ := bind_ok_iff.mp h
  obtain ⟨hidentity, h⟩ := check_bind_ok_iff.mp h
  obtain ⟨hmetadata, -⟩ := check_bind_ok_iff.mp hidentity
  cases h
  exact (require_ok_iff.mp hmetadata).2.2.2.1 rfl

theorem decodeEndpointSliceObject_normalized {payload : Bytes} {record : SliceRecord}
    (h : decodeEndpointSliceObject payload binding true = .ok record) :
    ∀ r ∈ record.endpoints, r.Normalized binding := by
  unfold decodeEndpointSliceObject at h
  obtain ⟨slice, -, h⟩ := bind_ok_iff.mp h
  exact normalizeEndpointSlice_normalized h

/-- An event changes the state as its source does, or is refused and changes
nothing: the last check of a resource version has been made before. -/
theorem applyEvent_cases (binding : Binding) (state : TopologyState) (source : WatchSource)
    (event : WireWatchEvent) :
    (∃ err, applyEvent binding state source event = (some err, state))
      ∨ ∃ next, applyEvent binding state source event = (none, next)
        ∧ StateChanges binding state source next := by
  cases source with
  | service =>
      simp only [applyEvent]
      split
      · cases hdecode : decodeServiceObject event.object binding true with
        | error err => exact .inl ⟨err, rfl⟩
        | ok service => exact .inr ⟨_, rfl, .service (decodeServiceObject_version hdecode)⟩
      · exact .inl ⟨_, rfl⟩
  | endpointSlice =>
      simp only [applyEvent]
      split
      · cases hdecode : decodeEndpointSliceObject event.object binding true with
        | error err => exact .inl ⟨err, rfl⟩
        | ok record =>
            dsimp only
            split
            · exact .inl ⟨_, rfl⟩
            · split
              · exact .inl ⟨_, rfl⟩
              · have hversion := validResourceVersion_of_decode hdecode
                rw [if_pos hversion]
                exact .inr ⟨_, rfl, .put (decodeEndpointSliceObject_normalized hdecode) hversion ‹_›
                  (by omega)⟩
      · split
        · cases hdecode : decodeEndpointSliceDelete event.object binding true with
          | error err => exact .inl ⟨err, rfl⟩
          | ok deleted =>
              exact .inr ⟨_, rfl, .erase (decodeEndpointSliceDelete_version hdecode)⟩
        · exact .inl ⟨_, rfl⟩

end Apply

/-! ## Bounds -/

theorem countEndpoints_erase (slices : TextMap SliceRecord) (uid : Bytes) :
    countEndpoints (slices.erase uid) + endpointCountForSlice (slices.get uid) =
      countEndpoints slices := by
  unfold countEndpoints
  cases hget : slices.get uid with
  | none => rw [TextMap.erase_of_get hget, endpointCountForSlice, Option.map_none, Option.getD_none,
      Nat.add_zero]
  | some old =>
      rw [((TextMap.perm_of_get hget).map fun slice => slice.2.endpoints.length).sum_nat,
        List.map_cons, List.sum_cons, endpointCountForSlice, Option.map_some, Option.getD_some,
        Nat.add_comm]

theorem countEndpoints_put (slices : TextMap SliceRecord) (record : SliceRecord) (uid : Bytes) :
    countEndpoints (slices.put uid record) =
      record.endpoints.length + countEndpoints (slices.erase uid) := by
  unfold countEndpoints
  rw [((slices.put_perm uid record).map fun slice => slice.2.endpoints.length).sum_nat,
    List.map_cons, List.sum_cons]

theorem length_put (slices : TextMap SliceRecord) (record : SliceRecord) (uid : Bytes) :
    (slices.put uid record).entries.length =
      if slices.get uid = none then slices.entries.length + 1 else slices.entries.length := by
  rw [(slices.put_perm uid record).length_eq, List.length_cons]
  cases hget : slices.get uid with
  | none => rw [TextMap.erase_of_get hget, if_pos rfl]
  | some old => rw [if_neg (by simp), (TextMap.perm_of_get hget).length_eq, List.length_cons]

/-- What holds of the topology state of a session. -/
structure TopologyState.Inv (binding : Binding) (state : TopologyState) : Prop where
  normalized : state.Normalized binding
  slices : (state.slices.entries.length : Int) ≤ binding.bounds.endpointSliceCount
  endpoints : (countEndpoints state.slices : Int) ≤ binding.bounds.endpointCount
  serviceVersion : validResourceVersion state.serviceResourceVersion = true
  endpointVersion : validResourceVersion state.endpointResourceVersion = true

theorem StateChanges.inv {binding : Binding} {state next : TopologyState} {source : WatchSource}
    (h : StateChanges binding state source next) (hinv : state.Inv binding) : next.Inv binding := by
  cases h with
  | service hversion => exact { hinv with serviceVersion := hversion }
  | @put record _ hrecord hversion hcount hendpoints =>
      refine ⟨fun r hr => ?_, ?_, ?_, hinv.serviceVersion, hversion⟩
      · obtain ⟨slice, hslice, hr⟩ := List.mem_flatMap.mp hr
        rcases TextMap.mem_put_iff.mp hslice with rfl | ⟨hslice, -⟩
        · exact hrecord r hr
        · exact hinv.normalized r (List.mem_flatMap.mpr ⟨slice, hslice, hr⟩)
      · have hslices := hinv.slices
        rw [length_put]
        split_ifs with hget
        · have hroom : ¬binding.bounds.endpointSliceCount ≤ state.slices.entries.length :=
            fun hle =>
            hcount ⟨hle, hget⟩
          push_cast
          omega
        · exact hslices
      · have hput := countEndpoints_put state.slices record record.uid
        have herase := countEndpoints_erase state.slices record.uid
        dsimp only
        omega
  | @erase uid _ hversion =>
      refine ⟨fun r hr => ?_, ?_, ?_, hinv.serviceVersion, hversion⟩
      · obtain ⟨slice, hslice, hr⟩ := List.mem_flatMap.mp hr
        exact hinv.normalized r
          (List.mem_flatMap.mpr ⟨slice, (TextMap.mem_erase_iff.mp hslice).1, hr⟩)
      · have hle := List.length_filter_le (fun e : Bytes × SliceRecord => e.1 ≠ uid)
          state.slices.entries
        have hslices := hinv.slices
        dsimp only [TextMap.erase]
        omega
      · have herase := countEndpoints_erase state.slices uid
        have hendpoints := hinv.endpoints
        dsimp only
        omega

/-! ## What can come of an event -/

/-- The event deletes the target. -/
def Deletes (source : WatchSource) (event : WireWatchEvent) : Prop :=
  source = .service ∧ event.type = "DELETED"

instance (source : WatchSource) (event : WireWatchEvent) : Decidable (Deletes source event) :=
  inferInstanceAs (Decidable (_ ∧ _))

/-- The change that is built for the next snapshot. -/
inductive Built (current next : InstanceSnapshot) : Bool → InstanceChange → Prop
  | delta {keys : List Bytes} : keys.Perm (current.instances.map Instance.id) →
      samePublicTopology current next = false →
        Built current next false (kubernetesChange current next keys)
  | deletion : Built current next true ⟨.targetDeleted, next.revision, [], [], none, next⟩

/-- The session takes events in. -/
def Session.Open (s : Session) : Prop := s.terminal = none ∧ s.targetDeleted = false

section Accept

variable [UnicodeCase]

/-- The next snapshot of the state. -/
def Session.Next (s : Session) (order : RangeOrder) (state : TopologyState)
    (next : InstanceSnapshot) :
    Prop :=
  state.snapshot order s.target (s.current.revision.localOrder + 1) = .ok next

inductive Accepts (s : Session) (source : WatchSource) (event : WireWatchEvent) :
    AcceptOutcome → Session → Prop
  | ignored : ¬s.Open → Accepts s source event .ignored s
  | refused {err : OutcomeError} : s.Open →
      applyEvent s.binding s.state source event = (some err, s.state) →
      Accepts s source event (.rejected err) s
  | inconsistent {err : OutcomeError} {state : TopologyState} {order : RangeOrder} {n : UInt64} :
      s.Open → applyEvent s.binding s.state source event = (none, state) →
      state.snapshot order s.target n = .error err →
      Accepts s source event (.rejected err) { s with state := state }
  | quiet {state : TopologyState} {order : RangeOrder} {next : InstanceSnapshot} : s.Open →
      applyEvent s.binding s.state source event = (none, state) → s.Next order state next →
      samePublicTopology s.current next = true →
      Accepts s source event .quiet { s with state := state }
  | unpublished {state : TopologyState} {order : RangeOrder} {next : InstanceSnapshot}
      {deletion : Bool} {input : InstanceChange} {err : OutcomeError} {w : LocalInstanceWatch} :
      s.Open → applyEvent s.binding s.state source event = (none, state) → s.Next order state next →
      Built s.current next deletion input → (deletion = true ↔ Deletes source event) →
      (InstanceChange.new input = .error err ∧ w = s.inner.watch
        ∨ ∃ change, InstanceChange.new input = .ok change
          ∧ s.inner.watch.publish change = (.error err, w)) →
      Accepts s source event (.unpublished err)
        { s with state := state, inner := { s.inner with watch := w } }
  | published {state : TopologyState} {order : RangeOrder} {next : InstanceSnapshot}
      {deletion : Bool} {input change : InstanceChange} {w : LocalInstanceWatch} : s.Open →
      applyEvent s.binding s.state source event = (none, state) → s.Next order state next →
      Built s.current next deletion input → (deletion = true ↔ Deletes source event) →
      InstanceChange.new input = .ok change → s.inner.watch.publish change = (.ok (), w) →
      Accepts s source event (.published change) { s with
        state := state, inner := { s.inner with watch := w }, current := next
        targetDeleted := deletion }

theorem Session.publishChange_accepts {s : Session} {source : WatchSource} {event : WireWatchEvent}
    {state : TopologyState} {order : RangeOrder} {next : InstanceSnapshot} {deletion : Bool}
    {input : InstanceChange} (hopen : s.Open)
    (happly : applyEvent s.binding s.state source event = (none, state))
    (hnext : s.Next order state next) (hbuilt : Built s.current next deletion input)
    (hdeletion : deletion = true ↔ Deletes source event) :
    Accepts s source event ({ s with state := state }.publishChange input next deletion).1
      ({ s with state := state }.publishChange input next deletion).2 := by
  unfold publishChange
  cases hnew : InstanceChange.new input with
  | error err => exact .unpublished hopen happly hnext hbuilt hdeletion (.inl ⟨hnew, rfl⟩)
  | ok change =>
      dsimp only
      cases hpublish : s.inner.watch.publish change with
      | mk result w =>
          cases result with
          | error err =>
              exact .unpublished hopen happly hnext hbuilt hdeletion (.inr ⟨change, hnew, hpublish⟩)
          | ok _ => exact .published hopen happly hnext hbuilt hdeletion hnew hpublish

theorem Session.acceptEvent_accepts (s : Session) (order : SessionOrder) (source : WatchSource)
    (event : WireWatchEvent) :
    Accepts s source event (s.acceptEvent order source event).1
      (s.acceptEvent order source event).2 := by
  unfold acceptEvent
  by_cases hclosed : s.terminal ≠ none ∨ s.targetDeleted = true
  · rw [if_pos hclosed]
    exact .ignored fun hopen => by simp [hopen.1, hopen.2] at hclosed
  · rw [if_neg hclosed]
    have hopen : s.Open := by
      simp only [not_or, not_not, Bool.not_eq_true] at hclosed
      exact hclosed
    rcases applyEvent_cases s.binding s.state source event with ⟨err, happly⟩ | ⟨state, happly, -⟩
    · rw [happly]
      exact .refused hopen happly
    · rw [happly]
      dsimp only
      by_cases hdeletes : source = .service ∧ event.type = "DELETED"
      · rw [if_pos hdeletes]
        unfold emitTargetDeleted
        dsimp only
        cases hnext : state.snapshot order.toRangeOrder s.target
            (s.current.revision.localOrder + 1) with
        | error err => exact .inconsistent hopen happly hnext
        | ok next =>
            exact publishChange_accepts hopen happly hnext .deletion (iff_of_true rfl hdeletes)
      · rw [if_neg hdeletes]
        unfold emitCurrentState
        dsimp only
        cases hnext : state.snapshot order.toRangeOrder s.target
            (s.current.revision.localOrder + 1) with
        | error err => exact .inconsistent hopen happly hnext
        | ok next =>
            dsimp only
            by_cases hsame : samePublicTopology s.current next = true
            · rw [if_pos hsame]
              exact .quiet hopen happly hnext hsame
            · rw [if_neg hsame]
              exact publishChange_accepts hopen happly hnext
                (.delta (order.ids_perm _) (Bool.not_eq_true _ ▸ hsame))
                (iff_of_false nofun hdeletes)

end Accept

/-! ## Snapshots of the state -/

section Snapshot

variable [UnicodeCase] {binding : Binding} {state : TopologyState} {target : ReleaseTarget}
  {order : RangeOrder} {n : UInt64} {next : InstanceSnapshot}

theorem TopologyState.snapshot_valid (h : state.snapshot order target n = .ok next) :
    next.Valid ∧ next.target = target ∧ next.revision.localOrder = n := by
  unfold snapshot at h
  obtain ⟨l, -, h⟩ := bind_ok_iff.mp h
  obtain ⟨revision, hrevision, h⟩ := bind_ok_iff.mp h
  obtain ⟨-, -, hvalid, heq⟩ := InstanceSnapshot.new_ok_iff.mp h
  unfold Revision.new at hrevision
  obtain ⟨-, hrevision⟩ := check_bind_ok_iff.mp hrevision
  cases hrevision
  refine ⟨hvalid, ?_, ?_⟩ <;> rw [heq]

/-- What a snapshot shows is told by the state. -/
theorem TopologyState.Inv.snapshot_congr (hinv : state.Inv binding)
    (h : state.snapshot order target n = .ok next) (order' : RangeOrder) (n' : UInt64) :
    ∃ next', state.snapshot order' target n' = .ok next' ∧ next'.state = next.state
      ∧ next'.instances = next.instances := by
  obtain ⟨hvalid, htarget, -⟩ := snapshot_valid h
  have htarget' : target.validate = .ok () := htarget ▸ hvalid.target
  have hconsistent : Consistent state.records := by
    by_contra hinconsistent
    unfold snapshot at h
    rw [instances_error hinv.normalized hinconsistent] at h
    cases h
  obtain ⟨l, hl, hsnapshot⟩ := snapshot_ok hinv.normalized hconsistent order htarget'
    hinv.serviceVersion hinv.endpointVersion n
  obtain ⟨l', hl', hsnapshot'⟩ := snapshot_ok hinv.normalized hconsistent order' htarget'
    hinv.serviceVersion hinv.endpointVersion n'
  rw [instances_congr hinv.normalized order' order, hl] at hl'
  cases hl'
  rw [hsnapshot] at h
  cases h
  exact ⟨_, hsnapshot', rfl, rfl⟩

end Snapshot

/-! ## Changes that lead from one snapshot to the next -/

/-- The changes are numbered one after the other, and each leads from the
instances before it to those of its own snapshot. -/
inductive Chained (initial : InstanceSnapshot) : List InstanceChange → InstanceSnapshot → Prop
  | nil : Chained initial [] initial
  | snoc {changes : List InstanceChange} {last : InstanceSnapshot} {change : InstanceChange} :
      Chained initial changes last → change.revision = change.snapshot.revision →
      change.revision.localOrder.toNat = last.revision.localOrder.toNat + 1 →
      (change.kind = .targetDeleted ∧ change.upserts = [] ∧ change.deletedInstanceIDs = []
          ∧ change.snapshot.instances = []
        ∨ change.kind ≠ .targetDeleted
          ∧ applyDelta last.instances (change.upserts, change.deletedInstanceIDs) =
            change.snapshot.instances) →
      Chained initial (changes ++ [change]) change.snapshot

theorem Chained.orders {initial last : InstanceSnapshot} {changes : List InstanceChange}
    (h : Chained initial changes last) :
    changes.map (fun c => c.revision.localOrder.toNat) =
        List.range' (initial.revision.localOrder.toNat + 1) changes.length
      ∧ last.revision.localOrder.toNat = initial.revision.localOrder.toNat + changes.length := by
  induction h with
  | nil => exact ⟨rfl, rfl⟩
  | @snoc changes last change _ hrevision horder _ ih =>
      obtain ⟨horders, hlast⟩ := ih
      rw [List.map_append, horders, List.length_append, List.length_singleton, List.range'_concat]
      refine ⟨?_, ?_⟩
      · rw [List.map_singleton, horder, hlast]
        congr 2
        omega
      · rw [← hrevision, horder, hlast]
        omega

theorem toNat_succ_of_ne_zero {x : UInt64} (h : x + 1 ≠ 0) : (x + 1).toNat = x.toNat + 1 := by
  have hlt := x.toNat_lt
  rw [UInt64.toNat_add, UInt64.toNat_one]
  refine Nat.mod_eq_of_lt (by_contra fun hge => h ?_)
  rw [← UInt64.toNat_inj, UInt64.toNat_add, UInt64.toNat_one, show x.toNat + 1 = 2 ^ 64 by omega]
  rfl

section Sessions

variable [UnicodeCase]

theorem Built.snoc {initial current next : InstanceSnapshot} {deletion : Bool}
    {input change : InstanceChange} {changes : List InstanceChange}
    (h : Chained initial changes current) (hcurrent : current.Valid) (hnext : next.Valid)
    (horder : next.revision.localOrder = current.revision.localOrder + 1)
    (hbuilt : Built current next deletion input) (hnew : InstanceChange.new input = .ok change) :
    Chained initial (changes ++ [change]) next := by
  obtain ⟨-, -, -, -, hvalid, heq⟩ := InstanceChange.new_ok_iff.mp hnew
  have hnumber : ∀ change : InstanceChange, change.Valid → change.revision = next.revision →
      change.revision.localOrder.toNat = current.revision.localOrder.toNat + 1 := by
    intro change hvalid hrevision
    have hne := hvalid.localOrder
    rw [hrevision, horder] at hne ⊢
    exact toNat_succ_of_ne_zero hne
  cases hbuilt with
  | @delta keys hkeys hdiffers =>
      have hinput : kubernetesChange current next keys =
          ⟨(kubernetesChange current next keys).kind, next.revision,
            (topologyDelta current next keys).1, (topologyDelta current next keys).2,
            (kubernetesChange current next keys).previousState,
            next⟩ ∧ (kubernetesChange current next keys).kind ≠ .targetDeleted := by
        unfold kubernetesChange
        dsimp only
        split <;> exact ⟨rfl, nofun⟩
      rw [hinput.1] at heq
      subst heq
      refine Chained.snoc h rfl (hnumber _ hvalid rfl) (.inr ⟨hinput.2, ?_⟩)
      have hupserts : InOrder idKey (topologyDelta current next keys).1 :=
        hnext.inOrder.sublist List.filter_sublist
      rw [applyDelta_sortBy hupserts]
      exact applyDelta_topologyDelta hcurrent hnext hkeys
  | deletion =>
      subst heq
      refine Chained.snoc h rfl (hnumber _ hvalid rfl) (.inl ⟨rfl, rfl, rfl, ?_⟩)
      have hkind := hvalid.kind
      simp only [InstanceChange.validateKind, require_ok_iff] at hkind
      by_contra hnonempty
      rw [hnext.state.mpr hnonempty] at hkind
      cases hkind.2.1

/-! ## Sessions and their runs -/

structure Session.Inv (s : Session) : Prop where
  state : s.state.Inv s.binding
  current : s.current.Valid
  target : s.current.target = s.target

/-- A snapshot taken now would show what the current one shows. -/
def Session.Fresh (s : Session) : Prop :=
  ∀ order n, ∃ next, s.state.snapshot order s.target n = .ok next ∧ next.state = s.current.state
    ∧ next.instances = s.current.instances

variable {s s' : Session} {source : WatchSource} {event : WireWatchEvent} {outcome : AcceptOutcome}
  {e : ObservationEvent} {trace : List ObservationEvent}

/-- The events that are taken in, and the rest. -/
theorem ObservationMoves.cases (h : ObservationMoves s e s') :
    (∃ source event outcome, e = .accepted source event outcome ∧ Accepts s source event outcome s')
      ∨ e.outcome = none ∧ s'.binding = s.binding
        ∧ s'.target = s.target ∧ s'.state = s.state ∧ s'.current = s.current := by
  cases h with
  | accept order source event =>
      exact .inl ⟨source, event, _, rfl, s.acceptEvent_accepts order source event⟩
  | fail err =>
      refine .inr ⟨rfl, ?_⟩
      unfold Session.fail
      split <;> exact ⟨rfl, rfl, rfl, rfl⟩
  | close =>
      refine .inr ⟨rfl, ?_⟩
      unfold Session.close
      split <;> exact ⟨rfl, rfl, rfl, rfl⟩
  | stop hterminal =>
      refine .inr ⟨rfl, ?_⟩
      unfold Session.stop
      split <;> exact ⟨rfl, rfl, rfl, rfl⟩
  | finish hdeleted => exact .inr ⟨rfl, rfl, rfl, rfl, rfl⟩
  | consume hconsumes hmove => exact .inr ⟨rfl, rfl, rfl, rfl, rfl⟩

theorem stateInv_of_applyEvent (hinv : s.Inv) {state : TopologyState}
    (happly : applyEvent s.binding s.state source event = (none, state)) :
    state.Inv s.binding := by
  rcases applyEvent_cases s.binding s.state source event with ⟨err, herr⟩ | ⟨next, hnext, hchanges⟩
  · rw [happly] at herr
    cases herr
  · rw [happly] at hnext
    cases hnext
    exact hchanges.inv hinv.state

section Accepts

variable (h : Accepts s source event outcome s')

include h

theorem Accepts.kept :
    s'.binding = s.binding ∧ s'.target = s.target := by
  cases h <;> exact ⟨rfl, rfl⟩

/-- The state stays within the bounds, whatever becomes of the event. -/
theorem Accepts.inv (hinv : s.Inv) : s'.Inv := by
  cases h with
  | ignored | refused => exact hinv
  | inconsistent _ happly _ => exact { hinv with state := stateInv_of_applyEvent hinv happly }
  | quiet _ happly _ _ => exact { hinv with state := stateInv_of_applyEvent hinv happly }
  | unpublished _ happly _ _ _ _ => exact { hinv with state := stateInv_of_applyEvent hinv happly }
  | published _ happly hnext _ _ _ _ =>
      obtain ⟨hvalid, htarget, -⟩ := TopologyState.snapshot_valid hnext
      exact ⟨stateInv_of_applyEvent hinv happly, hvalid, htarget⟩

theorem Accepts.fresh (hinv : s.Inv) (haccepted : outcome.Accepted = true) : s'.Fresh := by
  intro order n
  cases h with
  | ignored | refused | inconsistent | unpublished => cases haccepted
  | quiet _ happly hnext hsame =>
      obtain ⟨next', hsnapshot, hstate, hinstances⟩ :=
        (stateInv_of_applyEvent hinv happly).snapshot_congr hnext order n
      obtain ⟨hstate', hinstances'⟩ := (samePublicTopology_iff hinv.current).mp hsame
      exact ⟨next', hsnapshot, hstate.trans hstate'.symm, hinstances.trans hinstances'.symm⟩
  | published _ happly hnext _ _ _ _ =>
      exact (stateInv_of_applyEvent hinv happly).snapshot_congr hnext order n

theorem Accepts.chained (hinv : s.Inv) {initial : InstanceSnapshot}
    {changes : List InstanceChange} (hchained : Chained initial changes s.current) :
    Chained initial (changes ++ outcome.change.toList) s'.current := by
  cases h with
  | ignored | refused | inconsistent | quiet | unpublished =>
      simpa [AcceptOutcome.change] using hchained
  | published _ _ hnext hbuilt _ hnew _ =>
      obtain ⟨hvalid, -, horder⟩ := TopologyState.snapshot_valid hnext
      exact hbuilt.snoc hchained hinv.current hvalid horder hnew

end Accepts

end Sessions

/-! ## What was observed -/

def publishedChanges (trace : List ObservationEvent) : List InstanceChange :=
  trace.filterMap fun e => e.outcome.bind AcceptOutcome.change

def sourceEvents (source : WatchSource) (trace : List ObservationEvent) : List WireWatchEvent :=
  trace.filterMap (ObservationEvent.sourceEvent source)

/-- Every event was taken in. -/
def AllAccepted (trace : List ObservationEvent) : Prop :=
  ∀ e ∈ trace, ∀ outcome ∈ e.outcome, outcome.Accepted = true

theorem allAccepted_concat_iff {trace : List ObservationEvent} {e : ObservationEvent} :
    AllAccepted (trace ++ [e]) ↔
      AllAccepted trace ∧ ∀ outcome ∈ e.outcome, outcome.Accepted = true := by
  simp [AllAccepted, or_imp, forall_and]

theorem filterMap_concat {α β : Type} (f : α → Option β) (l : List α) (a : α) :
    (l ++ [a]).filterMap f = l.filterMap f ++ (f a).toList := by
  rw [List.filterMap_append]
  cases h : f a <;> simp [h]

section Observed

variable [UnicodeCase] {s s' : Session} {e : ObservationEvent} {trace : List ObservationEvent}

structure Observed (initial : Session) (trace : List ObservationEvent) (s : Session) : Prop where
  binding : s.binding = initial.binding
  target : s.target = initial.target
  inv : s.Inv
  chained : Chained initial.current (publishedChanges trace) s.current
  fresh : AllAccepted trace → s.Fresh

/-- A move leads on from what was published before it. -/
theorem Observed.move {initial : Session} (h : Observed initial trace s)
    (hmove : ObservationMoves s e s') : Observed initial (trace ++ [e]) s' := by
  rcases hmove.cases with ⟨source, event, outcome, rfl, haccepts⟩ |
    ⟨hnone, hbinding, htarget, hstate, hcurrent⟩
  · obtain ⟨hbinding, htarget⟩ := haccepts.kept
    refine ⟨hbinding.trans h.binding, htarget.trans h.target, haccepts.inv h.inv, ?_,
      fun hall => ?_⟩
    · rw [publishedChanges, filterMap_concat]
      exact haccepts.chained h.inv h.chained
    · exact haccepts.fresh h.inv ((allAccepted_concat_iff.mp hall).2 outcome rfl)
  · refine ⟨hbinding.trans h.binding, htarget.trans h.target, ?_, ?_, fun hall => ?_⟩
    · exact ⟨by rw [hstate, hbinding]; exact h.inv.state, by rw [hcurrent]; exact h.inv.current,
        by rw [hcurrent, htarget]; exact h.inv.target⟩
    · rw [publishedChanges, filterMap_concat, hnone, hcurrent]
      simpa [publishedChanges] using h.chained
    · intro order n
      rw [hstate, htarget, hcurrent]
      exact h.fresh (allAccepted_concat_iff.mp hall).1 order n

/-- The published changes lead from the first snapshot to the current one. -/
theorem Observed.run {initial : Session} (h : Observed initial [] initial)
    (hrun : ObservationRun initial trace s) : Observed initial trace s :=
  hrun.holds (Observed initial) (fun _ _ _ _ h hmove => h.move hmove) h

end Observed

end Kubernetes

end Registry

end Nekiro
