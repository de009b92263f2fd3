import Nekiro.KubernetesObservation

/-!
# Two sources, one topology

The events of the service and those of its endpoint slices touch different
parts of the topology state, and neither looks at the part of the other
(`applyEvent_service`, `applyEvent_endpointSlice`). So each part is told by
the events of its own source (`ToldBy.folded`), whatever became of those of
the other, and whether an event of a slice is rejected does not depend on
those of the service (`acceptEvent_rejected_iff`). `observation_spec` puts
the results about runs together.
-/

namespace Nekiro

open Json Guard Strings

namespace Registry

namespace Kubernetes

/-! ## The parts of the two sources -/

/-- What the events of the service change. -/
def TopologyState.servicePart (state : TopologyState) : Bool × Bytes :=
  (state.servicePresent, state.serviceResourceVersion)

/-- What the events of the slices change. -/
def TopologyState.slicePart (state : TopologyState) : TextMap SliceRecord × Bytes :=
  (state.slices, state.endpointResourceVersion)

theorem TopologyState.ext_parts {state state' : TopologyState}
    (hservice : state.servicePart = state'.servicePart)
    (hslice : state.slicePart = state'.slicePart) :
    state = state' := by
  cases state
  cases state'
  simp only [servicePart, slicePart, Prod.mk.injEq] at hservice hslice
  simp [hservice, hslice]

theorem applyEvent_service (binding : Binding) (state : TopologyState) (event : WireWatchEvent) :
    (applyEvent binding state .service event).2.slicePart = state.slicePart
      ∧ ∀ state', state.servicePart = state'.servicePart →
        (applyEvent binding state .service event).2.servicePart =
          (applyEvent binding state' .service event).2.servicePart := by
  unfold applyEvent
  dsimp only
  split
  · cases decodeServiceObject event.object binding true with
    | error err => exact ⟨rfl, fun state' h => h⟩
    | ok service => exact ⟨rfl, fun state' _ => rfl⟩
  · exact ⟨rfl, fun state' h => h⟩

theorem applyEvent_endpointSlice (binding : Binding) (state : TopologyState)
    (event : WireWatchEvent) :
    (applyEvent binding state .endpointSlice event).2.servicePart = state.servicePart
      ∧ ∀ state', state.slicePart = state'.slicePart →
        (applyEvent binding state .endpointSlice event).1 =
            (applyEvent binding state' .endpointSlice event).1
          ∧ (applyEvent binding state .endpointSlice event).2.slicePart =
            (applyEvent binding state' .endpointSlice event).2.slicePart := by
  constructor
  · rcases applyEvent_cases binding state .endpointSlice event with ⟨err, h⟩ | ⟨next, h, hchanges⟩
    · rw [h]
    · rw [h]
      cases hchanges <;> rfl
  · intro state' hpart
    have hslices : state.slices = state'.slices := congrArg Prod.fst hpart
    have hversion : state.endpointResourceVersion = state'.endpointResourceVersion :=
      congrArg Prod.snd hpart
    unfold applyEvent
    dsimp only
    rw [hslices]
    split
    · cases decodeEndpointSliceObject event.object binding true with
      | error err => exact ⟨rfl, hpart⟩
      | ok record =>
          dsimp only
          split
          · exact ⟨rfl, hpart⟩
          · split
            · exact ⟨rfl, hpart⟩
            · exact ⟨rfl, rfl⟩
    · split
      · cases decodeEndpointSliceDelete event.object binding true with
        | error err => exact ⟨rfl, hpart⟩
        | ok deleted => exact ⟨rfl, rfl⟩
      · exact ⟨rfl, hpart⟩

/-- The state after these events of one source. -/
def foldEvents (binding : Binding) (source : WatchSource) (state : TopologyState)
    (events : List WireWatchEvent) : TopologyState :=
  events.foldl (fun state event => (applyEvent binding state source event).2) state

/-- The events of this source alone change the part, and by it alone. -/
structure ToldBy (binding : Binding) (source : WatchSource) {β : Type}
    (part : TopologyState → β) : Prop where
  own : ∀ state state' event, part state = part state' →
    part (applyEvent binding state source event).2 = part (applyEvent binding state' source event).2
  frame : ∀ source' ≠ source, ∀ state event,
    part (applyEvent binding state source' event).2 = part state

theorem toldBy_servicePart (binding : Binding) :
    ToldBy binding .service TopologyState.servicePart where
  own _ _ _ h := (applyEvent_service ..).2 _ h
  frame
    | .service, hne, _, _ => absurd rfl hne
    | .endpointSlice, _, _, _ => (applyEvent_endpointSlice ..).1

theorem toldBy_slicePart (binding : Binding) :
    ToldBy binding .endpointSlice TopologyState.slicePart where
  own _ _ _ h := ((applyEvent_endpointSlice ..).2 _ h).2
  frame
    | .service, _, _, _ => (applyEvent_service ..).1
    | .endpointSlice, hne, _, _ => absurd rfl hne

/-- Every event of this source was taken in. -/
def SourceAccepted (source : WatchSource) (trace : List ObservationEvent) : Prop :=
  ∀ event outcome, .accepted source event outcome ∈ trace → outcome.Accepted = true

theorem AllAccepted.source {trace : List ObservationEvent} (h : AllAccepted trace)
    (source : WatchSource) : SourceAccepted source trace :=
  fun _ outcome hmem => h _ hmem outcome rfl

/-- The part is the fold of the events of the source. -/
abbrev Folded {β : Type} (initial : Session) (source : WatchSource) (part : TopologyState → β)
    (trace : List ObservationEvent) (s : Session) : Prop :=
  part s.state =
    part (foldEvents initial.binding source initial.state (sourceEvents source trace))

section Runs

variable [UnicodeCase] {initial s s' : Session} {source : WatchSource} {event : WireWatchEvent}
  {outcome : AcceptOutcome} {e : ObservationEvent} {trace trace' : List ObservationEvent}

theorem Accepts.state_cases (h : Accepts s source event outcome s') :
    s'.state = (applyEvent s.binding s.state source event).2
      ∨ outcome.Accepted = false ∧ s'.state = s.state := by
  cases h with
  | ignored | refused => exact .inr ⟨rfl, rfl⟩
  | inconsistent _ happly _ => exact .inl (by rw [happly])
  | quiet _ happly _ _ => exact .inl (by rw [happly])
  | unpublished _ happly _ _ _ _ => exact .inl (by rw [happly])
  | published _ happly _ _ _ _ _ => exact .inl (by rw [happly])

omit [UnicodeCase] in
theorem sourceEvents_concat (source : WatchSource) (trace : List ObservationEvent)
    (e : ObservationEvent) :
    sourceEvents source (trace ++ [e]) = sourceEvents source trace
      ++ (e.sourceEvent source).toList :=
  filterMap_concat _ _ _

omit [UnicodeCase] in
theorem sourceEvent_of_outcome (h : e.outcome = none) (source : WatchSource) :
    e.sourceEvent source = none := by
  cases e with
  | accepted => cases h
  | failed | closed | stopped | finished | consumed => rfl

section Part

variable {β : Type} {part : TopologyState → β} (htold : ToldBy initial.binding source part)

include htold

theorem ToldBy.move (h : Folded initial source part trace s)
    (hbinding : s.binding = initial.binding) (hmove : ObservationMoves s e s')
    (haccepted : SourceAccepted source [e]) : Folded initial source part (trace ++ [e]) s' := by
  rw [Folded, sourceEvents_concat]
  rcases hmove.cases with ⟨source', event, outcome, rfl, haccepts⟩ | ⟨hnone, -, -, hstate, -⟩
  · have hcases := haccepts.state_cases
    rw [hbinding] at hcases
    by_cases hsource : source' = source
    · subst hsource
      rcases hcases with hstate | ⟨hrefused, -⟩
      · rw [hstate, htold.own _ _ _ h]
        simp [ObservationEvent.sourceEvent, foldEvents]
      · rw [haccepted event outcome (by simp)] at hrefused
        cases hrefused
    · have hkept : part s'.state = part s.state := by
        rcases hcases with hstate | ⟨-, hstate⟩ <;> rw [hstate]
        exact htold.frame source' hsource s.state event
      simp [hkept, h, ObservationEvent.sourceEvent, hsource]
  · rw [hstate, h, sourceEvent_of_outcome hnone, Option.toList_none, List.append_nil]

theorem ToldBy.folded (hstart : Observed initial [] initial) (hrun : ObservationRun initial trace s)
    (hall : SourceAccepted source trace) : Folded initial source part trace s := by
  suffices h : Observed initial trace s
      ∧ (SourceAccepted source trace → Folded initial source part trace s) from h.2 hall
  refine hrun.holds (fun trace s => Observed initial trace s
    ∧ (SourceAccepted source trace → Folded initial source part trace s)) ?_
      ⟨hstart, fun _ => rfl⟩
  rintro trace s e s' ⟨hobserved, hfolded⟩ hmove
  refine ⟨hobserved.move hmove, fun hall => htold.move (hfolded ?_) hobserved.binding hmove ?_⟩
  · exact fun event outcome hmem => hall event outcome (List.mem_append_left _ hmem)
  · exact fun event outcome hmem => hall event outcome (List.mem_append_right _ hmem)

end Part

/-! ## Rejected events -/

theorem Session.Inv.consistent_iff (hinv : s.Inv) {state : TopologyState}
    (hstate : state.Inv s.binding) (order : RangeOrder) (n : UInt64) :
    Consistent state.records ↔ ∃ next, state.snapshot order s.target n = .ok next := by
  have htarget : s.target.validate = .ok () := hinv.target ▸ hinv.current.target
  constructor
  · intro hconsistent
    obtain ⟨l, -, hsnapshot⟩ := TopologyState.snapshot_ok hstate.normalized hconsistent
      order htarget
      hstate.serviceVersion hstate.endpointVersion n
    exact ⟨_, hsnapshot⟩
  · rintro ⟨next, hnext⟩
    by_contra hinconsistent
    unfold TopologyState.snapshot at hnext
    rw [TopologyState.instances_error hstate.normalized hinconsistent] at hnext
    cases hnext

/-- An event is rejected for what it says, or as the records it leads to do
not agree. -/
theorem Session.acceptEvent_rejected_iff (hinv : s.Inv) (hopen : s.Open) (order : SessionOrder)
    (source : WatchSource) (event : WireWatchEvent) :
    (∃ err, (s.acceptEvent order source event).1 = .rejected err) ↔
      (applyEvent s.binding s.state source event).1 ≠ none
        ∨ ¬Consistent (applyEvent s.binding s.state source event).2.records := by
  have haccepts := s.acceptEvent_accepts order source event
  generalize (s.acceptEvent order source event).1 = outcome at haccepts
  generalize (s.acceptEvent order source event).2 = s' at haccepts
  have hnext : ∀ {state : TopologyState} {order : RangeOrder} {next : InstanceSnapshot},
      applyEvent s.binding s.state source event = (none, state) → s.Next order state next →
        ¬((applyEvent s.binding s.state source event).1 ≠ none
          ∨ ¬Consistent (applyEvent s.binding s.state source event).2.records) := by
    intro state order next happly hnext
    rw [happly]
    have hconsistent := (hinv.consistent_iff (stateInv_of_applyEvent hinv happly) order
      (s.current.revision.localOrder + 1)).mpr ⟨next, hnext⟩
    simpa using hconsistent
  cases haccepts with
  | ignored hclosed => exact absurd hopen hclosed
  | @refused err _ happly => exact iff_of_true ⟨err, rfl⟩ (.inl (by simp [happly]))
  | @inconsistent err state order n _ happly herror =>
      refine iff_of_true ⟨err, rfl⟩ (.inr fun hconsistent => ?_)
      rw [happly] at hconsistent
      obtain ⟨next, hnext⟩ := (hinv.consistent_iff (stateInv_of_applyEvent hinv happly) order n).mp
        hconsistent
      rw [herror] at hnext
      cases hnext
  | quiet _ happly hquiet _ => exact iff_of_false (by simp) (hnext happly hquiet)
  | unpublished _ happly hbuilt _ _ _ => exact iff_of_false (by simp) (hnext happly hbuilt)
  | published _ happly hbuilt _ _ _ _ => exact iff_of_false (by simp) (hnext happly hbuilt)

/-- A change that was not published found no number or no place. -/
theorem Session.acceptEvent_unpublished (hinv : s.Inv) {order : SessionOrder}
    {source : WatchSource} {event : WireWatchEvent} {err : OutcomeError}
    (h : (s.acceptEvent order source event).1 = .unpublished err) :
    s.current.revision.localOrder + 1 = 0
      ∨ ∃ change, change.validate = .ok () ∧ (s.inner.watch.publish change).1 = .error err := by
  have haccepts := s.acceptEvent_accepts order source event
  rw [h] at haccepts
  generalize (s.acceptEvent order source event).2 = s' at haccepts
  refine or_iff_not_imp_left.mpr fun hnumber => ?_
  cases haccepts with
  | @unpublished state order next deletion input err w hopen happly hnext hbuilt hdeletion hwhy =>
      obtain ⟨hvalid, -, horder⟩ := TopologyState.snapshot_valid hnext
      have horder' : next.revision.localOrder ≠ 0 := horder ▸ hnumber
      have hnew : ∃ change, InstanceChange.new input = .ok change := by
        cases hbuilt with
        | delta hkeys hdiffers =>
            exact kubernetesChange_accepted hinv.current hvalid hkeys horder' hdiffers
        | deletion =>
            obtain ⟨rfl, hevent⟩ := hdeletion.mp rfl
            have habsent : state.servicePresent = false := by
              unfold applyEvent at happly
              dsimp only at happly
              rw [if_pos (.inr (.inr hevent))] at happly
              cases hdecode : decodeServiceObject event.object s.binding true with
              | error err => rw [hdecode] at happly; cases happly
              | ok service =>
                  rw [hdecode] at happly
                  cases happly
                  simp [hevent]
            have hmissing : next.state = .missing := by
              unfold Session.Next TopologyState.snapshot at hnext
              obtain ⟨l, -, hnext⟩ := bind_ok_iff.mp hnext
              obtain ⟨revision, -, hnext⟩ := bind_ok_iff.mp hnext
              obtain ⟨-, -, -, rfl⟩ := InstanceSnapshot.new_ok_iff.mp hnext
              simp [habsent]
            refine ⟨_, InstanceChange.new_ok_iff.mpr ⟨by simp, by simp, by simp, by simp, ?_, rfl⟩⟩
            refine ⟨horder', hvalid, rfl, .nil, by simp [sortBy], .nil, by simp [sortBy], ?_⟩
            simp [InstanceChange.validateKind, hmissing, sortBy]
      rcases hwhy with ⟨herror, -⟩ | ⟨change, hchange, hpublish⟩
      · obtain ⟨change, hchange⟩ := hnew
        rw [herror] at hchange
        cases hchange
      · obtain ⟨-, -, -, -, hchangeValid, -⟩ := InstanceChange.new_ok_iff.mp hchange
        exact ⟨change, InstanceChange.validate_ok_iff.mpr hchangeValid, by rw [hpublish]⟩

/-! ## The start -/

omit [UnicodeCase] in
/-- The slices of a list are within the bounds, and counted. -/
theorem foldlM_addSlice {binding : Binding} {items : List WireEndpointSlice}
    {slices : TextMap SliceRecord × Int}
    (h : items.foldlM (addSlice binding) (.empty, 0) = .ok slices)
    (hbound : 0 ≤ binding.bounds.endpointCount) :
    (∀ slice ∈ slices.1.entries, ∀ r ∈ slice.2.endpoints, r.Normalized binding)
      ∧ slices.1.entries.length ≤ items.length ∧ (countEndpoints slices.1 : Int) = slices.2
      ∧ slices.2 ≤ binding.bounds.endpointCount := by
  induction items using List.reverseRecOn generalizing slices with
  | nil =>
      cases h
      exact ⟨by simp [TextMap.empty], by simp [TextMap.empty], rfl, hbound⟩
  | append_singleton items item ih =>
      rw [List.foldlM_append] at h
      obtain ⟨acc, hacc, h⟩ := bind_ok_iff.mp h
      rw [List.foldlM_cons] at h
      obtain ⟨acc', hadd, hdone⟩ := bind_ok_iff.mp h
      cases hdone
      obtain ⟨hnormalized, hlength, hcount, -⟩ := ih hacc
      unfold addSlice at hadd
      obtain ⟨record, hrecord, hadd⟩ := bind_ok_iff.mp hadd
      obtain ⟨hle, hadd⟩ := check_bind_ok_iff.mp hadd
      obtain ⟨hfresh, hadd⟩ := check_bind_ok_iff.mp hadd
      rw [require_ok_iff] at hle hfresh
      cases hadd
      refine ⟨fun slice hslice => ?_, ?_, ?_, hle⟩
      · rcases TextMap.mem_put_iff.mp hslice with rfl | ⟨hslice, -⟩
        · exact normalizeEndpointSlice_normalized hrecord
        · exact hnormalized slice hslice
      · rw [length_put, if_pos hfresh, List.length_append, List.length_singleton]
        omega
      · have hput := countEndpoints_put acc.1 record record.uid
        have herase := countEndpoints_erase acc.1 record.uid
        rw [hfresh, endpointCountForSlice, Option.map_none, Option.getD_none] at herase
        rw [length_endpoints_of_normalizeEndpointSlice hrecord] at hput
        dsimp only
        omega

theorem newObservationSession_observed {binding : Binding} {target : ReleaseTarget}
    {order : RangeOrder} {servicePayload endpointPayload : Bytes}
    (hbounds : binding.bounds.validate = .ok ())
    (h : newObservationSession binding target order servicePayload endpointPayload = .ok s) :
    Observed s [] s ∧ s.current.revision.localOrder = 0 := by
  unfold newObservationSession acquireLists at h
  obtain ⟨state, hstate, h⟩ := bind_ok_iff.mp h
  obtain ⟨snapshot, hsnapshot, h⟩ := bind_ok_iff.mp h
  obtain ⟨watch, -, h⟩ := bind_ok_iff.mp h
  cases h
  obtain ⟨service, hservice, hstate⟩ := bind_ok_iff.mp hstate
  obtain ⟨endpoint, hendpoint, hstate⟩ := bind_ok_iff.mp hstate
  obtain ⟨instances, -, hstate⟩ := bind_ok_iff.mp hstate
  cases hstate
  have hserviceVersion : validResourceVersion service.2 = true := by
    unfold decodeServiceList at hservice
    obtain ⟨list, -, hservice⟩ := bind_ok_iff.mp hservice
    obtain ⟨hmetadata, hservice⟩ := check_bind_ok_iff.mp hservice
    rw [require_ok_iff] at hmetadata
    split at hservice
    · cases hservice
      exact hmetadata.1
    · obtain ⟨-, hservice⟩ := check_bind_ok_iff.mp hservice
      cases hservice
      exact hmetadata.1
  have hinv : TopologyState.Inv binding ⟨service.1, service.2, endpoint.2, endpoint.1⟩ := by
    unfold decodeEndpointSliceList at hendpoint
    obtain ⟨list, -, hendpoint⟩ := bind_ok_iff.mp hendpoint
    obtain ⟨hmetadata, hendpoint⟩ := check_bind_ok_iff.mp hendpoint
    obtain ⟨slices, hslices, hendpoint⟩ := bind_ok_iff.mp hendpoint
    cases hendpoint
    rw [require_ok_iff] at hmetadata
    have hpositive := (require_ok_iff.mp hbounds).2.2.2.1
    obtain ⟨hnormalized, hlength, hcount, hle⟩ := foldlM_addSlice hslices hpositive.le
    refine ⟨fun r hr => ?_, ?_, ?_, hserviceVersion, hmetadata.1⟩
    · obtain ⟨slice, hslice, hr⟩ := List.mem_flatMap.mp hr
      exact hnormalized slice hslice r hr
    · have hitems := hmetadata.2.2
      dsimp only
      omega
    · dsimp only
      omega
  obtain ⟨hvalid, htarget, horder⟩ := TopologyState.snapshot_valid hsnapshot
  exact ⟨⟨rfl, rfl, ⟨hinv, hvalid, htarget⟩, .nil, fun _ => hinv.snapshot_congr hsnapshot⟩, horder⟩

/-- **Observation.** What holds of a session after every run. -/
theorem observation_spec {binding : Binding} {target : ReleaseTarget} {order : RangeOrder}
    {servicePayload endpointPayload : Bytes} (hbounds : binding.bounds.validate = .ok ())
    (hnew : newObservationSession binding target order servicePayload endpointPayload = .ok initial)
    (hrun : ObservationRun initial trace s) :
    -- the changes are numbered, and each leads on from the one before
    ((publishedChanges trace).map (fun c => c.revision.localOrder.toNat) =
          List.range' 1 (publishedChanges trace).length
        ∧ Chained initial.current (publishedChanges trace) s.current)
      -- the current snapshot is what the events have led to
      ∧ ((AllAccepted trace → s.Fresh)
        ∧ ∀ source event outcome s', ObservationMoves s (.accepted source event outcome) s' →
          outcome.Accepted = true → s'.Fresh)
      -- the order between the sources does not matter
      ∧ (∀ trace' s', ObservationRun initial trace' s' → AllAccepted trace → AllAccepted trace' →
        (∀ source, sourceEvents source trace = sourceEvents source trace') →
          s.current.state = s'.current.state ∧ s.current.instances = s'.current.instances)
      ∧ (∀ trace' s', ObservationRun initial trace' s' → SourceAccepted .endpointSlice trace →
        SourceAccepted .endpointSlice trace' →
        sourceEvents .endpointSlice trace = sourceEvents .endpointSlice trace' → s.Open → s'.Open →
          ∀ order order' event,
            (∃ err, (s.acceptEvent order .endpointSlice event).1 = .rejected err) ↔
              ∃ err, (s'.acceptEvent order' .endpointSlice event).1 = .rejected err)
      ∧ (∀ order source event err, (s.acceptEvent order source event).1 = .unpublished err →
        s.current.revision.localOrder + 1 = 0
          ∨ ∃ change, change.validate = .ok () ∧ (s.inner.watch.publish change).1 = .error err)
      -- the state stays within the bounds
      ∧ (s.state.slices.entries.length : Int) ≤ binding.bounds.endpointSliceCount
      ∧ (countEndpoints s.state.slices : Int) ≤ binding.bounds.endpointCount := by
  obtain ⟨hstart, hzero⟩ := newObservationSession_observed hbounds hnew
  have hobserved := hstart.run hrun
  have hinitial : initial.binding = binding := by
    unfold newObservationSession at hnew
    obtain ⟨state, -, hnew⟩ := bind_ok_iff.mp hnew
    obtain ⟨snapshot, -, hnew⟩ := bind_ok_iff.mp hnew
    obtain ⟨watch, -, hnew⟩ := bind_ok_iff.mp hnew
    cases hnew
    rfl
  have hbinding := hobserved.binding.trans hinitial
  have hinv := hobserved.inv.state
  rw [hbinding] at hinv
  refine ⟨⟨?_, hobserved.chained⟩, ⟨hobserved.fresh, ?_⟩, ?_, ?_, ?_, hinv.slices, hinv.endpoints⟩
  · have horders := hobserved.chained.orders.1
    rwa [hzero] at horders
  · intro source event outcome s' hmove haccepted
    rcases hmove.cases with ⟨source', event', outcome', heq, haccepts⟩ | ⟨hnone, -⟩
    · cases heq
      exact haccepts.fresh hobserved.inv haccepted
    · cases hnone
  · intro trace' s' hrun' hall hall' hevents
    have hobserved' := hstart.run hrun'
    have hservice := toldBy_servicePart initial.binding
    have hslice := toldBy_slicePart initial.binding
    have hstate : s.state = s'.state := by
      refine TopologyState.ext_parts ?_ ?_
      · rw [hservice.folded hstart hrun (hall.source _),
          hservice.folded hstart hrun' (hall'.source _), hevents]
      · rw [hslice.folded hstart hrun (hall.source _), hslice.folded hstart hrun' (hall'.source _),
          hevents]
    obtain ⟨next, hnext, hshown, hinstances⟩ := hobserved.fresh hall order 0
    obtain ⟨next', hnext', hshown', hinstances'⟩ := hobserved'.fresh hall' order 0
    rw [hstate, hobserved.target, ← hobserved'.target, hnext'] at hnext
    cases hnext
    exact ⟨hshown.symm.trans hshown', hinstances.symm.trans hinstances'⟩
  · intro trace' s' hrun' hall hall' hevents hopen hopen' order order' event
    have hobserved' := hstart.run hrun'
    have hpart : s.state.slicePart = s'.state.slicePart := by
      have hslice := toldBy_slicePart initial.binding
      rw [hslice.folded hstart hrun hall, hslice.folded hstart hrun' hall', hevents]
    obtain ⟨herror, hafter⟩ := (applyEvent_endpointSlice binding s.state event).2 s'.state hpart
    have hslices : (applyEvent binding s.state .endpointSlice event).2.records =
        (applyEvent binding s'.state .endpointSlice event).2.records := by
      unfold TopologyState.records
      rw [show (applyEvent binding s.state .endpointSlice event).2.slices =
        (applyEvent binding s'.state .endpointSlice event).2.slices from congrArg Prod.fst hafter]
    rw [Session.acceptEvent_rejected_iff hobserved.inv hopen,
      Session.acceptEvent_rejected_iff hobserved'.inv hopen', hbinding,
      hobserved'.binding.trans hinitial, herror, hslices]
  · exact fun order source event err => Session.acceptEvent_unpublished hobserved.inv

end Runs

/-! ## A service that appears -/

namespace Sample

def emptyList : Bytes := utf8 "\x7b\"metadata\":\x7b\"resourceVersion\":\"1\"\x7d\x7d"

/-- The service of the binding is there. -/
def added : WireWatchEvent where
  type := "ADDED"
  object := utf8 "\x7b\"metadata\":\x7b\"name\":\"svc\","
    ++ utf8 "\"namespace\":\"ns\",\"uid\":\"u1\","
    ++ utf8 "\"resourceVersion\":\"2\",\"labels\":\x7b"
      ++ utf8 "\"registry.nekiro.dev/binding-version\":"
    ++ utf8 "\"v1\"," ++ utf8 "\"registry.nekiro.dev/release-target\":" ++ utf8 "\"k1\"\x7d\x7d\x7d"

/-- An event of a type that no watch has. -/
def unknown : WireWatchEvent := { added with type := "PATCHED" }

/-- A slice with one address of the target `p1`. -/
def sliceAdded : WireWatchEvent where
  type := "ADDED"
  object := utf8 "\x7b\"metadata\":\x7b\"name\":\"slice\",\"namespace\":\"ns\","
    ++ utf8 "\"uid\":\"a\",\"resourceVersion\":\"7\",\"labels\":\x7b"
    ++ utf8 "\"kubernetes.io/service-name\":\"svc\","
    ++ utf8 "\"endpointslice.kubernetes.io/managed-by\":\"m\","
    ++ utf8 "\"registry.nekiro.dev/binding-version\":\"v1\","
    ++ utf8 "\"registry.nekiro.dev/release-target\":\"k1\"\x7d,\"ownerReferences\":["
    ++ utf8 "\x7b\"apiVersion\":\"v1\",\"kind\":\"Service\",\"name\":\"svc\","
    ++ utf8 "\"uid\":\"u1\"\x7d]\x7d,\"addressType\":\"IPv4\",\"ports\":["
    ++ utf8 "\x7b\"name\":\"http\",\"protocol\":\"TCP\",\"port\":80\x7d],\"endpoints\":["
    ++ utf8 "\x7b\"addresses\":[\"10.0.0.1\"],\"targetRef\":\x7b\"uid\":\"p1\"\x7d\x7d]\x7d"

def sortedSession : SessionOrder := { sorted with ids := fun l => l, ids_perm := fun _ => .refl _ }

def missingSnapshot : InstanceSnapshot :=
  ⟨weatherTarget, ⟨[utf8 "1", utf8 "1"], 0⟩, .missing, []⟩

def readySnapshot : InstanceSnapshot :=
  ⟨weatherTarget, ⟨[utf8 "2", utf8 "7"], 1⟩, .populated, [⟨utf8 "p1", [endpoint "10.0.0.1"],
    true, true, false, .ready, none, none, recordMetadata binding (utf8 "p1")⟩]⟩

def session : Session :=
  ⟨binding, weatherTarget, ⟨false, utf8 "1", utf8 "1", .empty⟩, missingSnapshot, none, false, false,
    ⟨⟨1, [], none, false, false, 0⟩, []⟩⟩

/-- The slice is there before its service. -/
def sliced : Session := { session with
  state := ⟨false, utf8 "1", utf8 "7", TextMap.empty.put (utf8 "a") (sliceRecord "a" "10.0.0.1")⟩ }

def appeared : InstanceChange :=
  ⟨.instancesChanged, readySnapshot.revision, readySnapshot.instances, [], none,
    readySnapshot⟩

section Facts

/-- Letters stay as they are. -/
local instance plainCase : UnicodeCase := ⟨fun r => r⟩

theorem newObservationSession_emptyList :
    newObservationSession binding weatherTarget sorted emptyList emptyList = .ok session := by
  have hlists : acquireLists binding sorted emptyList emptyList = .ok session.state := by
    decide +kernel
  have hsnapshot : session.state.snapshot sorted weatherTarget 0 = .ok missingSnapshot := by
    decide +kernel
  unfold newObservationSession
  rw [hlists, ok_bind, hsnapshot, ok_bind]
  rfl

theorem acceptEvent_sliceAdded :
    session.acceptEvent sortedSession .endpointSlice sliceAdded = (.quiet, sliced) := by
  have happly : applyEvent session.binding session.state .endpointSlice sliceAdded =
      (none, sliced.state) := by decide +kernel
  have hsnapshot : sliced.state.snapshot sortedSession.toRangeOrder session.target
        (session.current.revision.localOrder + 1) =
      .ok { missingSnapshot with revision := ⟨[utf8 "1", utf8 "7"], 1⟩ } := by decide +kernel
  rw [Session.acceptEvent, if_neg (by decide), happly]
  dsimp only
  rw [if_neg (by decide), Session.emitCurrentState, hsnapshot]
  exact if_pos (by decide +kernel)

theorem acceptEvent_added :
    (sliced.acceptEvent sortedSession .service added).1 = .published appeared
    ∧ (sliced.acceptEvent sortedSession .service added).2.terminal = none
    ∧ (sliced.acceptEvent sortedSession .service added).2.targetDeleted = false := by
  decide +kernel

theorem acceptEvent_unknown : session.acceptEvent sortedSession .service unknown =
    (.rejected invalidInput, session) :=
  rfl

theorem observation_of_added :
    ∃ s s', ObservationRun session [.accepted .endpointSlice sliceAdded .quiet,
          .accepted .service added (.published appeared)] s
      ∧ ObservationRun session [.accepted .service unknown (.rejected invalidInput),
          .accepted .endpointSlice sliceAdded .quiet] s'
      ∧ Chained missingSnapshot [appeared] s.current ∧ s.Fresh
      ∧ ∀ order order' event,
        (∃ err, (s.acceptEvent order .endpointSlice event).1 = .rejected err) ↔
          ∃ err, (s'.acceptEvent order' .endpointSlice event).1 = .rejected err := by
  have hslice := ObservationMoves.accept session sortedSession .endpointSlice sliceAdded
  have hadded := ObservationMoves.accept sliced sortedSession .service added
  have hunknown := ObservationMoves.accept session sortedSession .service unknown
  rw [acceptEvent_sliceAdded] at hslice
  rw [acceptEvent_added.1] at hadded
  rw [acceptEvent_unknown] at hunknown
  have hrun := (Run.single hslice).snoc hadded
  have hrun' := (Run.single hunknown).snoc hslice
  have hspec := observation_spec (by decide +kernel) newObservationSession_emptyList hrun
  refine ⟨_, _, hrun, hrun', hspec.1.2, hspec.2.1.1 ?_, hspec.2.2.2.1 _ _ hrun' ?_ ?_ ?_ ?_ ?_⟩
  · simp [AllAccepted, ObservationEvent.outcome, AcceptOutcome.Accepted]
  · simp [SourceAccepted, AcceptOutcome.Accepted]
  · simp [SourceAccepted, AcceptOutcome.Accepted]
  · simp [sourceEvents, ObservationEvent.sourceEvent]
  · exact acceptEvent_added.2
  · exact ⟨rfl, rfl⟩

end Facts

end Sample

end Kubernetes

end Registry

end Nekiro
