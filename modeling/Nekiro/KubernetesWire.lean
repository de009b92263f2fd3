import Nekiro.JsonInterface
import Nekiro.Netip
import Nekiro.RegistryModel

/-!
# Services and endpoint slices of Kubernetes

What the API server says about a bound service, and the records that the
provider makes of it: `normalizeEndpointSlice` refuses a slice as a whole if
it is not one of the service or has an endpoint that is not as it should
be. `EndpointRecord.Normalized` is what every record that comes out of it
has.

Objects are read by `encoding/json`, so a field that is not there has its
zero value, and `null` leaves it.
-/

namespace Nekiro

open Json Guard Strings

namespace Registry

namespace Kubernetes

def invalidInput : OutcomeError := newOutcomeError .invalid .invalidInput

/-! ## Bindings -/

structure ResourceBounds where
  listResponseBytes : Int
  watchEnvelopeBytes : Int
  endpointSliceCount : Int
  endpointCount : Int
  pendingChanges : Int

def ResourceBounds.validate (b : ResourceBounds) : Except OutcomeError Unit :=
  require (0 < b.listResponseBytes ∧ 0 < b.watchEnvelopeBytes ∧ 0 < b.endpointSliceCount
    ∧ 0 < b.endpointCount ∧ 0 < b.pendingChanges) invalidInput

/-- A binding, without the origin of the API, which only requests use. -/
structure Binding where
  target : ReleaseTarget
  namespaceName : Bytes
  serviceName : Bytes
  serviceUID : Bytes
  endpointSliceManagedBy : Bytes
  serviceOwnerLabels : StringMap
  endpointSliceLabels : StringMap
  addressType : Bytes
  portName : Bytes
  protocol : Bytes
  bounds : ResourceBounds
  targetKey : Bytes

def bindingVersionV1 : Bytes := utf8 "v1"

def labelBindingVersion : Bytes := utf8 "registry.nekiro.dev/binding-version"

def labelReleaseTarget : Bytes := utf8 "registry.nekiro.dev/release-target"

def labelServiceName : Bytes := utf8 "kubernetes.io/service-name"

def labelManagedBy : Bytes := utf8 "endpointslice.kubernetes.io/managed-by"

def metadataTargetRefUID : Bytes := utf8 "kubernetes.target_ref_uid"

def metadataAddressType : Bytes := utf8 "kubernetes.address_type"

/-- The entries of a map stored in another. -/
def putAll (labels more : StringMap) : StringMap :=
  more.entries.foldl (fun labels e => labels.put e.1 e.2) labels

namespace Binding

def serviceLabels (b : Binding) : StringMap :=
  putAll ((TextMap.empty.put labelBindingVersion bindingVersionV1).put labelReleaseTarget
    b.targetKey)
    b.serviceOwnerLabels

def endpointSliceSelectorLabels (b : Binding) : StringMap :=
  putAll ((TextMap.empty.put labelServiceName b.serviceName).put labelManagedBy
    b.endpointSliceManagedBy) b.endpointSliceLabels

def endpointSliceLabelsForObject (b : Binding) : StringMap :=
  (b.endpointSliceSelectorLabels.put labelBindingVersion bindingVersionV1).put labelReleaseTarget
    b.targetKey

end Binding

def validOpaqueIdentifier (value : Bytes) : Bool :=
  validExactText value && decide (value.length ≤ 253) && (runes value).all fun r => !isSpace r

def validResourceVersion (value : Bytes) : Bool := validOpaqueIdentifier value

theorem validExactText_of_opaqueIdentifier {value : Bytes}
    (h : validOpaqueIdentifier value = true) :
    validExactText value = true := by
  simp only [validOpaqueIdentifier, Bool.and_eq_true] at h
  exact h.1.1

/-! ## Objects -/

structure WireOwnerRef where
  apiVersion : String
  kind : String
  name : String
  uid : String

def WireOwnerRef.fields : List (Json.Field WireOwnerRef) :=
  [.of "apiVersion" apiVersion (fun r v => { r with apiVersion := v }) decodeString,
    .of "kind" kind (fun r v => { r with kind := v }) decodeString,
    .of "name" name (fun r v => { r with name := v }) decodeString,
    .of "uid" uid (fun r v => { r with uid := v }) decodeString]

structure WireObjectMeta where
  name : String
  namespaceName : String
  uid : String
  resourceVersion : String
  labels : List (String × String)
  ownerReferences : SliceVar WireOwnerRef

def WireObjectMeta.zero : WireObjectMeta := ⟨"", "", "", "", [], .zero⟩

def WireObjectMeta.fields : List (Json.Field WireObjectMeta) :=
  [.of "name" name (fun m v => { m with name := v }) decodeString,
    .of "namespace" namespaceName (fun m v => { m with namespaceName := v }) decodeString,
    .of "uid" uid (fun m v => { m with uid := v }) decodeString,
    .of "resourceVersion" resourceVersion (fun m v => { m with resourceVersion := v }) decodeString,
    .of "labels" labels (fun m v => { m with labels := v }) decodeTexts,
    .of "ownerReferences" ownerReferences (fun m v => { m with ownerReferences := v })
      (decodeSlice ⟨"", "", "", ""⟩ (decodeStruct false WireOwnerRef.fields))]

structure WireService where
  metadata : WireObjectMeta

def WireService.fields : List (Json.Field WireService) :=
  [.of "metadata" metadata (fun s v => { s with metadata := v })
    (decodeStruct false WireObjectMeta.fields)]

structure WireEndpointPort where
  name : Option String
  protocol : Option String
  port : Option Int

def WireEndpointPort.fields : List (Json.Field WireEndpointPort) :=
  [.of "name" name (fun p v => { p with name := v }) (decodePointer "" decodeString),
    .of "protocol" protocol (fun p v => { p with protocol := v }) (decodePointer "" decodeString),
    .of "port" port (fun p v => { p with port := v }) (decodePointer 0 decodeInt64)]

structure WireEndpointConditions where
  ready : Option Bool
  serving : Option Bool
  terminating : Option Bool

def WireEndpointConditions.fields : List (Json.Field WireEndpointConditions) :=
  [.of "ready" ready (fun c v => { c with ready := v }) (decodePointer false decodeBool),
    .of "serving" serving (fun c v => { c with serving := v }) (decodePointer false decodeBool),
    .of "terminating" terminating (fun c v => { c with terminating := v })
      (decodePointer false decodeBool)]

structure WireObjectReference where
  uid : String

def WireObjectReference.fields : List (Json.Field WireObjectReference) :=
  [.of "uid" uid (fun r v => { r with uid := v }) decodeString]

structure WireEndpoint where
  addresses : SliceVar String
  conditions : WireEndpointConditions
  targetRef : Option WireObjectReference
  zone : Option String

def WireEndpoint.zero : WireEndpoint := ⟨.zero, ⟨none, none, none⟩, none, none⟩

def WireEndpoint.fields : List (Json.Field WireEndpoint) :=
  [.of "addresses" addresses (fun e v => { e with addresses := v }) (decodeSlice "" decodeString),
    .of "conditions" conditions (fun e v => { e with conditions := v })
      (decodeStruct false WireEndpointConditions.fields),
    .of "targetRef" targetRef (fun e v => { e with targetRef := v })
      (decodePointer ⟨""⟩ (decodeStruct false WireObjectReference.fields)),
    .of "zone" zone (fun e v => { e with zone := v }) (decodePointer "" decodeString)]

structure WireEndpointSlice where
  metadata : WireObjectMeta
  addressType : Option String
  ports : SliceVar WireEndpointPort
  endpoints : SliceVar WireEndpoint

def WireEndpointSlice.zero : WireEndpointSlice := ⟨.zero, none, .zero, .zero⟩

def WireEndpointSlice.fields : List (Json.Field WireEndpointSlice) :=
  [.of "metadata" metadata (fun s v => { s with metadata := v })
      (decodeStruct false WireObjectMeta.fields),
    .of "addressType" addressType (fun s v => { s with addressType := v })
      (decodePointer "" decodeString),
    .of "ports" ports (fun s v => { s with ports := v })
      (decodeSlice ⟨none, none, none⟩ (decodeStruct false WireEndpointPort.fields)),
    .of "endpoints" endpoints (fun s v => { s with endpoints := v })
      (decodeSlice .zero (decodeStruct false WireEndpoint.fields))]

/-! ## The service -/

/-- A label that is not there reads as the empty text. -/
def hasRequiredLabels (actual : List (String × String)) (required : StringMap) : Bool :=
  required.entries.all fun e =>
    ((actual.find? fun a => utf8 a.1 = e.1).map fun a => utf8 a.2).getD [] = e.2

def validateService (service : WireService) (binding : Binding) (requireResourceVersion : Bool) :
    Except OutcomeError Unit :=
  let metadata := service.metadata
  require (utf8 metadata.name = binding.serviceName
    ∧ utf8 metadata.namespaceName = binding.namespaceName
    ∧ utf8 metadata.uid = binding.serviceUID ∧ validOpaqueIdentifier (utf8 metadata.uid)
    ∧ (requireResourceVersion → validResourceVersion (utf8 metadata.resourceVersion))
    ∧ hasRequiredLabels metadata.labels binding.serviceLabels) invalidInput

/-! ## Endpoint slices -/

structure EndpointRecord where
  id : Bytes
  endpoints : List NetworkEndpoint
  ready : Bool
  serving : Bool
  terminating : Bool
  zone : Option Bytes
  metadata : StringMap
deriving DecidableEq

structure SliceRecord where
  uid : Bytes
  endpoints : List EndpointRecord
deriving DecidableEq

/-- Owners that are no services do not matter, but one has to be. -/
def validateEndpointSliceIdentity (slice : WireEndpointSlice) (binding : Binding)
    (requireResourceVersion : Bool) : Except OutcomeError Unit := do
  let metadata := slice.metadata
  require (validOpaqueIdentifier (utf8 metadata.name)
    ∧ utf8 metadata.namespaceName = binding.namespaceName
    ∧ validOpaqueIdentifier (utf8 metadata.uid)
    ∧ (requireResourceVersion → validResourceVersion (utf8 metadata.resourceVersion))
    ∧ hasRequiredLabels metadata.labels binding.endpointSliceLabelsForObject) invalidInput
  require (slice.addressType.all fun addressType => utf8 addressType = binding.addressType)
    invalidInput
  let owners := (metadata.ownerReferences.shown.getD []).filter fun owner => owner.kind = "Service"
  require (owners.all fun owner => owner.apiVersion = "v1"
    && utf8 owner.name = binding.serviceName && utf8 owner.uid = binding.serviceUID) invalidInput
  require (owners ≠ []) invalidInput

/-- The one port of the binding. -/
def configuredPort (ports : List WireEndpointPort) (binding : Binding) :
    Except OutcomeError Int := do
  let candidates := ports.filter fun candidate =>
    candidate.name.map utf8 = some binding.portName
      && candidate.protocol.map utf8 = some binding.protocol
  require (candidates.all fun candidate => candidate.port.any fun port => 1 ≤ port && port ≤ 65535)
    invalidInput
  match candidates with
  | [⟨_, _, some port⟩] => pure port
  | _ => .error invalidInput

def validCanonicalAddress (raw addressType : Bytes) : Bool :=
  match Netip.parse raw with
  | none => false
  | some address =>
      address.text = raw
        && if addressType = addressTypeIPv4 then address.is4
          else if addressType = addressTypeIPv6 then address.is6 && !address.is4In6
          else false

/-- The metadata of every record of this target. -/
def recordMetadata (binding : Binding) (uid : Bytes) : StringMap :=
  (TextMap.empty.put metadataTargetRefUID uid).put metadataAddressType binding.addressType

def normalizeAddress (binding : Binding) (port : Int) (address : String) :
    Except OutcomeError NetworkEndpoint := do
  require (validCanonicalAddress (utf8 address) binding.addressType) invalidInput
  NetworkEndpoint.new ⟨binding.addressType, utf8 address, binding.portName, port, binding.protocol⟩

def normalizeEndpoint (endpoint : WireEndpoint) (binding : Binding) (port : Int) :
    Except OutcomeError EndpointRecord :=
  match endpoint.targetRef with
  | none => .error invalidInput
  | some targetRef => do
      let uid := utf8 targetRef.uid
      let addresses := endpoint.addresses.shown.getD []
      require (validOpaqueIdentifier uid ∧ addresses ≠ []) invalidInput
      require ((endpoint.zone.map utf8).all validOpaqueIdentifier) invalidInput
      let networkEndpoints ← addresses.mapM (normalizeAddress binding port)
      pure ⟨uid, networkEndpoints, endpoint.conditions.ready.getD true,
        endpoint.conditions.serving.getD true, endpoint.conditions.terminating.getD false,
        endpoint.zone.map utf8, recordMetadata binding uid⟩

def normalizeEndpointSlice (slice : WireEndpointSlice) (binding : Binding)
    (requireResourceVersion : Bool) : Except OutcomeError SliceRecord := do
  validateEndpointSliceIdentity slice binding requireResourceVersion
  require (slice.addressType.map utf8 = some binding.addressType) invalidInput
  let port ← configuredPort (slice.ports.shown.getD []) binding
  let endpoints ← (slice.endpoints.shown.getD []).mapM fun endpoint =>
    normalizeEndpoint endpoint binding port
  pure ⟨utf8 slice.metadata.uid, endpoints⟩

/-! ## Reading objects -/

/-- `decodeOneJSON`: one document and nothing behind it. -/
def decodeOneJSON {σ : Type} (fields : List (Json.Field σ)) (initial : σ) (payload : Bytes) :
    Except OutcomeError σ :=
  match Json.read Json.maxNestingDepth payload >>= fun v => decodeStruct false fields v initial with
  | none => .error invalidInput
  | some value => .ok value

def decodeServiceObject (payload : Bytes) (binding : Binding) (requireResourceVersion : Bool) :
    Except OutcomeError WireService := do
  let service ← decodeOneJSON WireService.fields ⟨.zero⟩ payload
  validateService service binding requireResourceVersion
  pure service

def decodeEndpointSliceObject (payload : Bytes) (binding : Binding)
    (requireResourceVersion : Bool) : Except OutcomeError SliceRecord := do
  let slice ← decodeOneJSON WireEndpointSlice.fields .zero payload
  normalizeEndpointSlice slice binding requireResourceVersion

/-- The UID and the resource version of a slice that was deleted. -/
def decodeEndpointSliceDelete (payload : Bytes) (binding : Binding)
    (requireResourceVersion : Bool) : Except OutcomeError (Bytes × Bytes) := do
  let slice ← decodeOneJSON WireEndpointSlice.fields .zero payload
  validateEndpointSliceIdentity slice binding requireResourceVersion
  pure (utf8 slice.metadata.uid, utf8 slice.metadata.resourceVersion)

def resourceVersionFromEvent (payload : Bytes) : Bytes :=
  match decodeOneJSON WireEndpointSlice.fields .zero payload with
  | .error _ => []
  | .ok slice => utf8 slice.metadata.resourceVersion

/-! ## Reading lists -/

structure WireListMeta where
  resourceVersion : String
  continueToken : String

def WireListMeta.fields : List (Json.Field WireListMeta) :=
  [.of "resourceVersion" resourceVersion (fun m v => { m with resourceVersion := v }) decodeString,
    .of "continue" continueToken (fun m v => { m with continueToken := v }) decodeString]

structure WireList (α : Type) where
  metadata : WireListMeta
  items : SliceVar α

def WireList.fields {α : Type} (zero : α) (fields : List (Json.Field α)) :
    List (Json.Field (WireList α)) :=
  [.of "metadata" metadata (fun l v => { l with metadata := v })
      (decodeStruct false WireListMeta.fields),
    .of "items" items (fun l v => { l with items := v })
      (decodeSlice zero (decodeStruct false fields))]

def WireList.zero {α : Type} : WireList α := ⟨⟨"", ""⟩, .zero⟩

/-- Whether the service is there, and the resource version of the list. -/
def decodeServiceList (payload : Bytes) (binding : Binding) :
    Except OutcomeError (Bool × Bytes) := do
  let list ← decodeOneJSON (WireList.fields ⟨.zero⟩ WireService.fields) .zero payload
  let items := list.items.shown.getD []
  require (validResourceVersion (utf8 list.metadata.resourceVersion)
    ∧ list.metadata.continueToken = "" ∧ items.length ≤ 1) invalidInput
  match items with
  | [] => pure (false, utf8 list.metadata.resourceVersion)
  | service :: _ => do
      validateService service binding false
      pure (true, utf8 list.metadata.resourceVersion)

/-- The records so far with the number of their endpoints, and one more
slice. -/
def addSlice (binding : Binding) (acc : TextMap SliceRecord × Int) (item : WireEndpointSlice) :
    Except OutcomeError (TextMap SliceRecord × Int) := do
  let record ← normalizeEndpointSlice item binding false
  let endpointCount := acc.2 + (item.endpoints.shown.getD []).length
  require (endpointCount ≤ binding.bounds.endpointCount) invalidInput
  require (acc.1.get record.uid = none) invalidInput
  pure (acc.1.put record.uid record, endpointCount)

def decodeEndpointSliceList (payload : Bytes) (binding : Binding) :
    Except OutcomeError (TextMap SliceRecord × Bytes) := do
  let list ← decodeOneJSON (WireList.fields .zero WireEndpointSlice.fields) .zero payload
  let items := list.items.shown.getD []
  require (validResourceVersion (utf8 list.metadata.resourceVersion)
    ∧ list.metadata.continueToken = "" ∧ (items.length : Int) ≤ binding.bounds.endpointSliceCount)
    invalidInput
  let slices ← items.foldlM (addSlice binding) (.empty, 0)
  pure (slices.1, utf8 list.metadata.resourceVersion)

/-! ## Normalized records -/

/-- What a record of this binding is like. -/
structure EndpointRecord.Normalized (binding : Binding) (r : EndpointRecord) : Prop where
  id : validOpaqueIdentifier r.id = true
  nonEmpty : r.endpoints ≠ []
  endpoint : ∀ e ∈ r.endpoints, e.Valid
  addressType : validExactText binding.addressType = true
  zone : ∀ zone ∈ r.zone, validOpaqueIdentifier zone = true
  metadata : r.metadata = recordMetadata binding r.id

variable {binding : Binding} {slice : WireEndpointSlice} {record : SliceRecord}

theorem normalizeAddress_valid {port : Int} {address : String} {e : NetworkEndpoint}
    (h : normalizeAddress binding port address = .ok e) :
    e.Valid ∧ e.addressType = binding.addressType := by
  unfold normalizeAddress NetworkEndpoint.new at h
  obtain ⟨-, h⟩ := check_bind_ok_iff.mp h
  obtain ⟨hvalid, h⟩ := check_bind_ok_iff.mp h
  cases h
  exact ⟨hvalid, rfl⟩

theorem normalizeEndpoint_normalized {endpoint : WireEndpoint} {port : Int} {r : EndpointRecord}
    (h : normalizeEndpoint endpoint binding port = .ok r) : r.Normalized binding := by
  unfold normalizeEndpoint at h
  cases htarget : endpoint.targetRef with
  | none =>
      rw [htarget] at h
      cases h
  | some targetRef =>
      rw [htarget] at h
      obtain ⟨hid, h⟩ := check_bind_ok_iff.mp h
      obtain ⟨hzone, h⟩ := check_bind_ok_iff.mp h
      obtain ⟨endpoints, hendpoints, h⟩ := bind_ok_iff.mp h
      cases h
      rw [require_ok_iff] at hid hzone
      rw [mapM_ok_iff] at hendpoints
      have hvalid : ∀ e ∈ endpoints, e.Valid ∧ e.addressType = binding.addressType := by
        intro e he
        obtain ⟨address, -, haddress⟩ := exists_of_forall₂ hendpoints.flip he
        exact normalizeAddress_valid haddress
      have hnonEmpty : endpoints ≠ [] := by
        rintro rfl
        exact hid.2 (List.forall₂_nil_right_iff.mp hendpoints)
      obtain ⟨e, he⟩ := List.exists_mem_of_ne_nil endpoints hnonEmpty
      obtain ⟨htype, -⟩ := NetworkEndpoint.validate_ok_iff.mp (hvalid e he).1
      rw [(hvalid e he).2] at htype
      exact ⟨hid.1, hnonEmpty, fun e he => (hvalid e he).1, htype, optionAll_iff.mp hzone, rfl⟩

theorem normalizeEndpointSlice_normalized {requireResourceVersion : Bool}
    (h : normalizeEndpointSlice slice binding requireResourceVersion = .ok record) :
    ∀ r ∈ record.endpoints, r.Normalized binding := by
  unfold normalizeEndpointSlice at h
  obtain ⟨-, h⟩ := check_bind_ok_iff.mp h
  obtain ⟨-, h⟩ := check_bind_ok_iff.mp h
  obtain ⟨port, -, h⟩ := bind_ok_iff.mp h
  obtain ⟨endpoints, hendpoints, h⟩ := bind_ok_iff.mp h
  cases h
  rw [mapM_ok_iff] at hendpoints
  intro r hr
  obtain ⟨endpoint, -, hnormalize⟩ := exists_of_forall₂ hendpoints.flip hr
  exact normalizeEndpoint_normalized hnormalize

theorem length_endpoints_of_normalizeEndpointSlice {requireResourceVersion : Bool}
    (h : normalizeEndpointSlice slice binding requireResourceVersion = .ok record) :
    record.endpoints.length = (slice.endpoints.shown.getD []).length := by
  unfold normalizeEndpointSlice at h
  obtain ⟨-, h⟩ := check_bind_ok_iff.mp h
  obtain ⟨-, h⟩ := check_bind_ok_iff.mp h
  obtain ⟨port, -, h⟩ := bind_ok_iff.mp h
  obtain ⟨endpoints, hendpoints, h⟩ := bind_ok_iff.mp h
  cases h
  exact (mapM_ok_iff.mp hendpoints).length_eq.symm

/-- The resource version was checked with the slice. -/
theorem validResourceVersion_of_decode {payload : Bytes}
    (h : decodeEndpointSliceObject payload binding true = .ok record) :
    validResourceVersion (resourceVersionFromEvent payload) = true := by
  unfold decodeEndpointSliceObject at h
  obtain ⟨slice, hslice, h⟩ := bind_ok_iff.mp h
  unfold normalizeEndpointSlice validateEndpointSliceIdentity at h
  obtain ⟨hidentity, -⟩ := check_bind_ok_iff.mp h
  obtain ⟨hmetadata, -⟩ := check_bind_ok_iff.mp hidentity
  rw [resourceVersionFromEvent, hslice]
  exact (require_ok_iff.mp hmetadata).2.2.2.1 rfl

end Kubernetes

end Registry

end Nekiro
