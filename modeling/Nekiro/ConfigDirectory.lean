import Nekiro.ConfigReads
import Nekiro.DuplicateMembers
import Nekiro.Netip
import Nekiro.RegistryModel

/-!
# The instance directory in a configuration document

The Router can take the instances of releases from one document of the
configuration. `Check` loads it, and with it builds every target and every
instance; `Snapshot` loads it again and builds the instances of one target.
The snapshot also refuses instances that share an ID, which loading does
not look for, so a document that was checked serves a target exactly if the
IDs of its entry are distinct (`checked_document_serves`).
-/

namespace Nekiro

open Json Guard Strings

/-! ## The document -/

structure RouterNetworkEndpointV1 where
  addressType : String
  address : String
  portName : String
  port : Int
  protocol : String

structure RouterInstanceV1 where
  instanceID : String
  ready : Bool
  serving : Bool
  terminating : Bool
  endpoints : SliceVar RouterNetworkEndpointV1

structure RouterInstanceDirectoryTargetV1 where
  agentID : String
  agentCardVersion : String
  releaseID : String
  cardDigest : String
  canonicalEndpoint : String
  audience : String
  instances : SliceVar RouterInstanceV1

structure RouterInstanceDirectoryV1 where
  schemaVersion : String
  revision : String
  targets : SliceVar RouterInstanceDirectoryTargetV1

def RouterNetworkEndpointV1.zero : RouterNetworkEndpointV1 := ⟨"", "", "", 0, ""⟩

def RouterInstanceV1.zero : RouterInstanceV1 := ⟨"", false, false, false, .zero⟩

def RouterInstanceDirectoryTargetV1.zero : RouterInstanceDirectoryTargetV1 :=
  ⟨"", "", "", "", "", "", .zero⟩

def RouterNetworkEndpointV1.fields : List (Json.Field RouterNetworkEndpointV1) :=
  [.of "addressType" addressType (fun e v => { e with addressType := v }) decodeString,
    .of "address" address (fun e v => { e with address := v }) decodeString,
    .of "portName" portName (fun e v => { e with portName := v }) decodeString,
    .of "port" port (fun e v => { e with port := v }) decodeInt64,
    .of "protocol" protocol (fun e v => { e with protocol := v }) decodeString]

def RouterInstanceV1.fields : List (Json.Field RouterInstanceV1) :=
  [.of "instanceId" instanceID (fun i v => { i with instanceID := v }) decodeString,
    .of "ready" ready (fun i v => { i with ready := v }) decodeBool,
    .of "serving" serving (fun i v => { i with serving := v }) decodeBool,
    .of "terminating" terminating (fun i v => { i with terminating := v }) decodeBool,
    .of "endpoints" endpoints (fun i v => { i with endpoints := v })
      (decodeSlice .zero (decodeStruct true RouterNetworkEndpointV1.fields))]

def RouterInstanceDirectoryTargetV1.fields : List (Json.Field RouterInstanceDirectoryTargetV1) :=
  [.of "agentId" agentID (fun t v => { t with agentID := v }) decodeString,
    .of "agentCardVersion" agentCardVersion (fun t v => { t with agentCardVersion := v })
      decodeString,
    .of "releaseId" releaseID (fun t v => { t with releaseID := v }) decodeString,
    .of "cardDigest" cardDigest (fun t v => { t with cardDigest := v }) decodeString,
    .of "canonicalEndpoint" canonicalEndpoint (fun t v => { t with canonicalEndpoint := v })
      decodeString,
    .of "audience" audience (fun t v => { t with audience := v }) decodeString,
    .of "instances" instances (fun t v => { t with instances := v })
      (decodeSlice .zero (decodeStruct true RouterInstanceV1.fields))]

def RouterInstanceDirectoryV1.fields : List (Json.Field RouterInstanceDirectoryV1) :=
  [.of "schemaVersion" schemaVersion (fun d v => { d with schemaVersion := v }) decodeString,
    .of "revision" revision (fun d v => { d with revision := v }) decodeString,
    .of "targets" targets (fun d v => { d with targets := v })
      (decodeSlice .zero (decodeStruct true RouterInstanceDirectoryTargetV1.fields))]

/-- The items of a slice, none if it is `nil`. -/
def Json.SliceVar.items {α : Type} (s : SliceVar α) : List α := s.shown.getD []

/-! ## Decoding it -/

def validRouterDirectoryHTTPURI (value : String) : Bool :=
  decide (value.length ≤ 2048)
    && (("http://".toList.isPrefixOf value.toList) || ("https://".toList.isPrefixOf value.toList))
    && (Url.parse (utf8 value)).any fun u => u.scheme ≠ [] && u.host ≠ []

def validateRouterEndpoint (e : RouterNetworkEndpointV1) : Except String Unit :=
  require ((e.addressType = "IPv4" ∨ e.addressType = "IPv6" ∨ e.addressType = "DNS")
    ∧ 1 ≤ e.address.length ∧ e.address.length ≤ 253 ∧ safeIdentifierPattern.matchText e.portName
    ∧ 1 ≤ e.port ∧ e.port ≤ 65535 ∧ e.protocol = "TCP") "invalid endpoint"

def validateRouterInstance (i : RouterInstanceV1) : Except String Unit := do
  require (safeIdentifierPattern.matchText i.instanceID ∧ 1 ≤ i.endpoints.items.length
    ∧ i.endpoints.items.length ≤ 32) "invalid instance"
  i.endpoints.items.forM validateRouterEndpoint

def validateRouterTarget (t : RouterInstanceDirectoryTargetV1) : Except String Unit := do
  require (safeIdentifierPattern.matchText t.agentID
    ∧ 1 ≤ t.agentCardVersion.length ∧ t.agentCardVersion.length ≤ 128
    ∧ safeIdentifierPattern.matchText t.releaseID ∧ cardDigestPattern.matchText t.cardDigest
    ∧ validRouterDirectoryHTTPURI t.canonicalEndpoint ∧ validRouterDirectoryHTTPURI t.audience
    ∧ t.instances.shown.isSome ∧ t.instances.items.length ≤ 4096) "invalid target"
  t.instances.items.forM validateRouterInstance

def validateRouterInstanceDirectoryV1 (document : RouterInstanceDirectoryV1) :
    Except String Unit := do
  require (document.targets.items.length ≤ 1024) "too many targets"
  document.targets.items.forM validateRouterTarget

/-- Every text that is one value is read; a text that is not fails in the
decoder or at what stands behind the value. -/
def decodeRouterInstanceDirectoryV1 (data : Bytes) : Except String RouterInstanceDirectoryV1 :=
  match Json.read Json.maxNestingDepth data with
  | none => .error "decode Router instance directory"
  | some v => do
      orFail "decode Router instance directory"
        (rejectDuplicateJSONMemberNames (delivered v.tokens))
      match decodeStruct true RouterInstanceDirectoryV1.fields v ⟨"", "", .zero⟩ with
      | none => .error "decode Router instance directory"
      | some document => do
          require (document.schemaVersion = "1") "unsupported schemaVersion"
          require (safeIdentifierPattern.matchText document.revision) "invalid revision"
          require (document.targets.shown.isSome) "targets must be an array"
          validateRouterInstanceDirectoryV1 document
          pure document

/-! ## Building it -/

namespace ConfigDirectory

open Registry

def errMissing : OutcomeError := ⟨.missing, .none, none⟩

def errCanceled : OutcomeError := ⟨.canceled, .none, none⟩

def addressTypeDNS : String := "DNS"

def isLowerAlphaNumeric (c : Char) : Bool := ('a' ≤ c && c ≤ 'z') || ('0' ≤ c && c ≤ '9')

/-- `[a-z0-9](?:[a-z0-9-]{0,61}[a-z0-9])?`. -/
def dnsLabelPattern : Regex :=
  .seq (.chars isLowerAlphaNumeric)
    (.opt (.seq (.upTo (.chars fun c => isLowerAlphaNumeric c || c == '-') 61)
      (.chars isLowerAlphaNumeric)))

def dnsAddressPattern : Regex :=
  .seq dnsLabelPattern (.star (.seq (.char '.') dnsLabelPattern))

def validAddress (addressType address : String) : Bool :=
  let parsed := Netip.parseIP (utf8 address)
  if addressType = "IPv4" then
    parsed.any fun ip => (Netip.to4 ip).isSome && Netip.ipText ip = utf8 address
  else if addressType = "IPv6" then
    parsed.any fun ip => (Netip.to4 ip).isNone && Netip.ipText ip = utf8 address
  else if addressType = addressTypeDNS then
    decide ((utf8 address).length ≤ 253) && dnsAddressPattern.matchText address
  else false

def networkEndpoint (value : RouterNetworkEndpointV1) : Except OutcomeError NetworkEndpoint := do
  require (validAddress value.addressType value.address
    ∧ utf8 value.protocol = transportProtocolTCP) errInvalid
  NetworkEndpoint.new ⟨utf8 value.addressType, utf8 value.address, utf8 value.portName, value.port,
    utf8 value.protocol⟩

/-- `instance`. -/
def instanceOf (wire : RouterInstanceV1) : Except OutcomeError Instance := do
  let endpoints ← wire.endpoints.items.mapM networkEndpoint
  Instance.new ⟨utf8 wire.instanceID, endpoints, wire.ready, wire.serving, wire.terminating, none,
    none, .empty⟩

def mapSourceError (err : ConfigCenter.ConfigError) : OutcomeError :=
  match err.code with
  | .missing => errMissing
  | .invalid | .unsafeState | .payloadTooLarge => errInvalid
  | .unauthorized => errUnauthorized
  | .canceled => errCanceled
  | .readerClosed => errClosed
  | _ => errUnavailable

section Directory

variable [UnicodeCase]

def releaseTarget (wire : RouterInstanceDirectoryTargetV1) : Except String ReleaseTarget :=
  newReleaseTarget ⟨wire.agentID, wire.agentCardVersion, wire.releaseID, wire.cardDigest,
    utf8 wire.canonicalEndpoint, utf8 wire.audience⟩

/-- The loop of `loadDocument`, with the release IDs seen so far. -/
def buildTargets : List String → List RouterInstanceDirectoryTargetV1 → Except OutcomeError Unit
  | _, [] => pure ()
  | seen, wire :: rest => do
      let target ← orFail errInvalid (releaseTarget wire)
      require (target.releaseID ∉ seen) errInvalid
      wire.instances.items.forM fun wireInstance =>
        orFail errInvalid (instanceOf wireInstance >>= fun _ => pure ())
      buildTargets (target.releaseID :: seen) rest

/-- What the reader answers is the snapshot of the configuration. -/
abbrev Answer : Type := Except ConfigCenter.ConfigError ConfigCenter.Snapshot

def loadDocument (answer : Answer) : Except OutcomeError RouterInstanceDirectoryV1 :=
  match answer with
  | .error err => .error (mapSourceError err)
  | .ok snapshot =>
      match snapshot.state with
      | none => .error errMissing
      | some content => do
          let document ← orFail errInvalid (decodeRouterInstanceDirectoryV1 content)
          buildTargets [] document.targets.items
          pure document

/-- `Directory.Check`. -/
def check (answer : Answer) : Except OutcomeError Unit := do
  let _ ← loadDocument answer
  pure ()

/-- The last entry that builds to the target. -/
def matchTarget (target : ReleaseTarget) (entries : List RouterInstanceDirectoryTargetV1) :
    Except OutcomeError (Option RouterInstanceDirectoryTargetV1) :=
  entries.foldlM (fun found wire => do
    let candidate ← orFail errInvalid (releaseTarget wire)
    pure (if candidate = target then some wire else found)) none

/-- `Directory.Snapshot`. -/
def snapshot (answer : Answer) (target : ReleaseTarget) : Except OutcomeError InstanceSnapshot := do
  orFail errInvalid target.validate
  let document ← loadDocument answer
  match ← matchTarget target document.targets.items with
  | none => .error errMissing
  | some entry => do
      let instances ← orFail errInvalid (entry.instances.items.mapM instanceOf)
      let revision ← orFail errInvalid (Revision.new ⟨[utf8 document.revision], 0⟩)
      orFail errInvalid (InstanceSnapshot.new ⟨target, revision,
        if instances = [] then .empty else .populated, instances⟩)

/-! ## What loading has built -/

theorem releaseTarget_releaseID {wire : RouterInstanceDirectoryTargetV1} {target : ReleaseTarget}
    (h : releaseTarget wire = .ok target) : target.releaseID = wire.releaseID := by
  obtain ⟨-, heq⟩ := check_bind_ok_iff.mp h
  cases heq
  rfl

/-- An entry whose target and instances can be built. -/
def Builds (wire : RouterInstanceDirectoryTargetV1) : Prop :=
  (∃ target, releaseTarget wire = .ok target)
    ∧ ∃ instances, wire.instances.items.mapM instanceOf = .ok instances

variable {wires : List RouterInstanceV1} {entry : RouterInstanceDirectoryTargetV1}
  {instances : List Instance}

omit [UnicodeCase] in
theorem forM_instanceOf_iff :
    wires.forM (fun wire => orFail errInvalid (instanceOf wire >>= fun _ => pure ())) = .ok () ↔
      ∃ instances, wires.mapM instanceOf = .ok instances := by
  simp only [forM_ok_iff, orFail_ok_iff, bind_ok_iff, exists_mapM_ok_iff]
  exact forall₂_congr fun wire _ => exists_congr fun i => and_iff_left rfl

theorem buildTargets_ok_iff {seen : List String} {wires : List RouterInstanceDirectoryTargetV1} :
    buildTargets seen wires = .ok () ↔ (∀ wire ∈ wires, Builds wire)
      ∧ (wires.map (·.releaseID)).Nodup ∧ ∀ wire ∈ wires, wire.releaseID ∉ seen := by
  induction wires generalizing seen with
  | nil => simp [buildTargets, pure, Except.pure]
  | cons wire rest ih =>
      rw [buildTargets, bind_ok_iff, List.forall_mem_cons, List.forall_mem_cons, List.map_cons,
        List.nodup_cons]
      simp only [check_bind_ok_iff, orFail_ok_iff, require_ok_iff, forM_instanceOf_iff, ih,
        List.mem_cons, List.mem_map, not_or, not_exists, not_and]
      constructor
      · rintro ⟨target, htarget, hnew, hinstances, hrest, hnodup, hunseen⟩
        rw [releaseTarget_releaseID htarget] at hnew hunseen
        exact ⟨⟨⟨⟨target, htarget⟩, hinstances⟩, hrest⟩,
          ⟨fun w hw => (hunseen w hw).1, hnodup⟩, hnew, fun w hw => (hunseen w hw).2⟩
      · rintro ⟨⟨⟨⟨target, htarget⟩, hinstances⟩, hrest⟩, ⟨hfresh, hnodup⟩, hnew, hunseen⟩
        refine ⟨target, htarget, ?_⟩
        rw [releaseTarget_releaseID htarget]
        exact ⟨hnew, hinstances, hrest, hnodup, fun w hw => ⟨hfresh w hw, hunseen w hw⟩⟩

/-- What is known of a document that loads. -/
structure Loaded (document : RouterInstanceDirectoryV1) : Prop where
  revision : safeIdentifierPattern.matchText document.revision = true
  builds : ∀ entry ∈ document.targets.items, Builds entry
  nodup : (document.targets.items.map (·.releaseID)).Nodup

omit [UnicodeCase] in
theorem decodeRouterInstanceDirectoryV1_revision {data : Bytes}
    {document : RouterInstanceDirectoryV1}
    (h : decodeRouterInstanceDirectoryV1 data = .ok document) :
    safeIdentifierPattern.matchText document.revision = true := by
  unfold decodeRouterInstanceDirectoryV1 at h
  split at h
  · cases h
  · obtain ⟨-, h⟩ := check_bind_ok_iff.mp h
    split at h
    · cases h
    · simp only [check_bind_ok_iff, require_ok_iff] at h
      obtain ⟨-, hrevision, -, -, heq⟩ := h
      cases heq
      exact hrevision

theorem loaded_of_loadDocument {answer : Answer} {document : RouterInstanceDirectoryV1}
    (h : loadDocument answer = .ok document) : Loaded document := by
  unfold loadDocument at h
  split at h
  · cases h
  · split at h
    · cases h
    · obtain ⟨document', hdecode, h⟩ := bind_ok_iff.mp h
      obtain ⟨hbuild, heq⟩ := check_bind_ok_iff.mp h
      cases heq
      obtain ⟨hbuilds, hnodup, -⟩ := buildTargets_ok_iff.mp hbuild
      exact ⟨decodeRouterInstanceDirectoryV1_revision (orFail_ok_iff.mp hdecode), hbuilds, hnodup⟩

theorem Loaded.revision_valid {document : RouterInstanceDirectoryV1} (h : Loaded document) :
    (⟨[utf8 document.revision], 0⟩ : Revision).Valid := by
  refine ⟨List.cons_ne_nil _ _, List.forall_mem_singleton.mpr ?_⟩
  refine validExactText_of_matchText safeIdentifierPattern_over ?_ h.revision
  intro hempty
  have hmatch := h.revision
  rw [hempty] at hmatch
  cases hmatch

/-! ## The entry of a target -/

/-- The entries that build to a target. -/
def entriesFor (target : ReleaseTarget) (entries : List RouterInstanceDirectoryTargetV1) :
    List RouterInstanceDirectoryTargetV1 :=
  entries.filter fun entry => releaseTarget entry = .ok target

theorem matchTarget_eq {target : ReleaseTarget} {entries : List RouterInstanceDirectoryTargetV1}
    (h : ∀ entry ∈ entries, Builds entry) :
    matchTarget target entries = .ok (entriesFor target entries).getLast? := by
  -- The loop ends with the last entry found, or else with what it started with.
  suffices hloop : ∀ found, entries.foldlM (fun found wire => do
      let candidate ← orFail errInvalid (releaseTarget wire)
      pure (if candidate = target then some wire else found)) found =
        (.ok ((entriesFor target entries).getLast?.or found) :
          Except OutcomeError (Option RouterInstanceDirectoryTargetV1)) by
    rw [matchTarget, hloop none, Option.or_none]
  induction entries with
  | nil => exact fun found => rfl
  | cons entry entries ih =>
      intro found
      obtain ⟨⟨⟨candidate, hcandidate⟩, -⟩, hrest⟩ := List.forall_mem_cons.mp h
      rw [List.foldlM_cons, hcandidate, orFail, ok_bind, pure_bind, ih hrest, entriesFor,
        entriesFor, List.filter_cons, hcandidate]
      by_cases heq : candidate = target
      · rw [if_pos heq, if_pos (by simp [heq]), List.getLast?_cons]
        cases (List.filter _ entries).getLast? <;> rfl
      · rw [if_neg heq, if_neg (by simp [heq])]

/-- Entries have different release IDs, so only one builds to a target. -/
theorem Loaded.entriesFor_eq {document : RouterInstanceDirectoryV1} (h : Loaded document)
    {target : ReleaseTarget} (hentry : entry ∈ document.targets.items)
    (hbuilds : releaseTarget entry = .ok target) :
    entriesFor target document.targets.items = [entry] := by
  refine filter_eq_singleton h.nodup hentry (decide_eq_true hbuilds) fun e _ he => ?_
  rw [← releaseTarget_releaseID hbuilds, ← releaseTarget_releaseID (of_decide_eq_true he)]

omit [UnicodeCase] in
theorem instanceOf_ok {wire : RouterInstanceV1} {i : Instance} (h : instanceOf wire = .ok i) :
    i.Valid ∧ i.id = utf8 wire.instanceID := by
  obtain ⟨endpoints, -, hnew⟩ := bind_ok_iff.mp h
  obtain ⟨-, -, hvalid, rfl⟩ := Instance.new_ok_iff.mp hnew
  exact ⟨hvalid, rfl⟩

omit [UnicodeCase] in
theorem nodup_idKey_iff (h : wires.mapM instanceOf = .ok instances) :
    (instances.map idKey).Nodup ↔ (wires.map (·.instanceID)).Nodup := by
  have hids : instances.map idKey = (wires.map (·.instanceID)).map fun id => byteKey (utf8 id) := by
    rw [mapM_ok_iff] at h
    induction h with
    | nil => rfl
    | cons hhead _ ih =>
        rw [List.map_cons, List.map_cons, List.map_cons, ih, idKey, (instanceOf_ok hhead).2]
  rw [hids, List.nodup_map_iff]
  exact fun id id' heq => utf8_inj.mp (byteKey_injective heq)

/-! ## Snapshots of a loaded document -/

variable {answer : Answer} {document : RouterInstanceDirectoryV1} {target : ReleaseTarget}

section LoadDocument

variable (h : loadDocument answer = .ok document) (htarget : target.validate = .ok ())

include h htarget

theorem snapshot_of_none
    (hnone : ∀ entry ∈ document.targets.items, releaseTarget entry ≠ .ok target) :
    snapshot answer target = .error errMissing := by
  have hfilter : entriesFor target document.targets.items = [] :=
    List.filter_eq_nil_iff.mpr fun entry hentry => by simpa using hnone entry hentry
  rw [snapshot, htarget, h, orFail, ok_bind, ok_bind,
    matchTarget_eq (loaded_of_loadDocument h).builds, hfilter]
  rfl

theorem snapshot_of_entry (hentry : entry ∈ document.targets.items)
    (hbuilds : releaseTarget entry = .ok target)
    (hinstances : entry.instances.items.mapM instanceOf = .ok instances) :
    snapshot answer target = orFail errInvalid (InstanceSnapshot.new ⟨target,
      ⟨[utf8 document.revision], 0⟩, if instances = [] then .empty else .populated,
      instances⟩) := by
  have hloaded := loaded_of_loadDocument h
  have hrevision : Revision.new ⟨[utf8 document.revision], 0⟩ =
      .ok ⟨[utf8 document.revision], 0⟩ :=
    check_bind_ok_iff.mpr ⟨Revision.validate_ok_iff.mpr hloaded.revision_valid, rfl⟩
  rw [snapshot, htarget, h, orFail, ok_bind, ok_bind, matchTarget_eq hloaded.builds,
    hloaded.entriesFor_eq hentry hbuilds, ok_bind]
  simp only [List.getLast?_singleton, hinstances, hrevision]
  rfl

/-- A snapshot is made of an entry exactly if its instances have distinct IDs. -/
theorem snapshot_of_entry_cases (hentry : entry ∈ document.targets.items)
    (hbuilds : releaseTarget entry = .ok target) :
    ((entry.instances.items.map (·.instanceID)).Nodup ∧ ∃ s instances,
        snapshot answer target = .ok s ∧ s.target = target
          ∧ entry.instances.items.mapM instanceOf = .ok instances ∧ s.instances.Perm instances)
      ∨ (¬(entry.instances.items.map (·.instanceID)).Nodup
        ∧ snapshot answer target = .error errInvalid) := by
  have hloaded := loaded_of_loadDocument h
  obtain ⟨-, instances, hinstances⟩ := hloaded.builds entry hentry
  rw [snapshot_of_entry h htarget hentry hbuilds hinstances, ← nodup_idKey_iff hinstances]
  have hvalid : ∀ i ∈ instances, i.Valid := by
    intro i hi
    obtain ⟨wire, -, hwire⟩ := (mem_of_mapM_ok hinstances).mp hi
    exact (instanceOf_ok hwire).1
  have hnew : ∀ {s}, InstanceSnapshot.new ⟨target, _, _, instances⟩ = .ok s ↔ _ :=
    InstanceSnapshot.new_listed_ok_iff htarget hloaded.revision_valid hvalid
  by_cases hnodup : (instances.map idKey).Nodup
  · exact .inl ⟨hnodup, _, instances, orFail_ok_iff.mpr (hnew.mpr ⟨hnodup, rfl⟩), rfl, hinstances,
      sortBy_perm idKey instances⟩
  · refine .inr ⟨hnodup, ?_⟩
    cases hsnapshot : InstanceSnapshot.new ⟨target, ⟨[utf8 document.revision], 0⟩,
        if instances = [] then .empty else .populated, instances⟩ with
    | error err => rfl
    | ok s => exact absurd (hnew.mp hsnapshot).1 hnodup

end LoadDocument

theorem check_of_snapshot {s : InstanceSnapshot} (h : snapshot answer target = .ok s) :
    check answer = .ok () ∧ target.validate = .ok () := by
  obtain ⟨htarget, h⟩ := check_bind_ok_iff.mp h
  obtain ⟨document, hload, -⟩ := bind_ok_iff.mp h
  exact ⟨bind_ok_iff.mpr ⟨document, hload, rfl⟩, orFail_ok_iff.mp htarget⟩

/-- What checking a document is to promise for a target: a missing target is
one that no entry builds to, and the one entry that does is served. -/
def Serves (answer : Answer) (document : RouterInstanceDirectoryV1)
    (target : ReleaseTarget) : Prop :=
  (snapshot answer target = .error errMissing ↔
      ∀ entry ∈ document.targets.items, releaseTarget entry ≠ .ok target)
    ∧ (∀ entry ∈ document.targets.items, releaseTarget entry = .ok target →
      entriesFor target document.targets.items = [entry]
        ∧ ∃ s instances, snapshot answer target = .ok s ∧ s.target = target
          ∧ entry.instances.items.mapM instanceOf = .ok instances ∧ s.instances.Perm instances)
    ∧ snapshot answer target ≠ .error errInvalid

/-- **A checked document serves a target** exactly if the instances of its
entry have distinct IDs. -/
theorem checked_document_serves (h : check answer = .ok ()) (htarget : target.validate = .ok ()) :
    ∃ document, loadDocument answer = .ok document
      ∧ (Serves answer document target ↔ ∀ entry ∈ document.targets.items,
        releaseTarget entry = .ok target → (entry.instances.items.map (·.instanceID)).Nodup) := by
  obtain ⟨document, hload, -⟩ := bind_ok_iff.mp h
  refine ⟨document, hload, fun hserves entry hentry hbuilds => ?_, fun hdistinct => ?_⟩
  · rcases snapshot_of_entry_cases hload htarget hentry hbuilds with ⟨hnodup, -⟩ | ⟨-, hinvalid⟩
    · exact hnodup
    · exact absurd hinvalid hserves.2.2
  · by_cases hnone : ∀ entry ∈ document.targets.items, releaseTarget entry ≠ .ok target
    · have hmissing := snapshot_of_none hload htarget hnone
      refine ⟨iff_of_true hmissing hnone, fun entry hentry hbuilds => ?_, ?_⟩
      · exact absurd hbuilds (hnone entry hentry)
      · rw [hmissing]
        decide
    · push Not at hnone
      obtain ⟨entry, hentry, hbuilds⟩ := hnone
      have hserved : ∀ entry ∈ document.targets.items, releaseTarget entry = .ok target →
          ∃ s instances, snapshot answer target = .ok s ∧ s.target = target
            ∧ entry.instances.items.mapM instanceOf = .ok instances
            ∧ s.instances.Perm instances := by
        intro entry hentry hbuilds
        rcases snapshot_of_entry_cases hload htarget hentry hbuilds with ⟨-, hok⟩ | ⟨hdup, -⟩
        · exact hok
        · exact absurd (hdistinct entry hentry hbuilds) hdup
      obtain ⟨s, -, hs, -⟩ := hserved entry hentry hbuilds
      refine ⟨iff_of_false ?_ fun hnone => hnone entry hentry hbuilds, fun e he hb => ?_, ?_⟩
      · rw [hs]
        exact nofun
      · exact ⟨(loaded_of_loadDocument hload).entriesFor_eq he hb, hserved e he hb⟩
      · rw [hs]
        exact nofun

end Directory

/-! ## A document with one entry -/

namespace Sample

def instanceText (id address : Bytes) : Bytes :=
  utf8 "\x7b\"instanceId\":\"" ++ id ++ utf8 "\",\"ready\":true,\"serving\":true,"
    ++ utf8 "\"endpoints\":[\x7b\"addressType\":\"IPv4\"," ++ utf8 "\"address\":\"" ++ address
    ++ utf8 "\",\"portName\":\"http\"," ++ utf8 "\"port\":80,\"protocol\":\"TCP\"\x7d]\x7d"

def documentText (instances : Bytes) : Bytes :=
  utf8 "\x7b\"schemaVersion\":\"1\",\"revision\":\"r7\","
    ++ utf8 "\"targets\":[\x7b\"agentId\":\"weather\","
    ++ utf8 "\"agentCardVersion\":\"1.0.0\"," ++ utf8 "\"releaseId\":\"r1\",\"cardDigest\":\""
    ++ List.replicate 64 (byte '0') ++ utf8 "\",\"canonicalEndpoint\":"
    ++ utf8 "\"https://weather.example/a2a\"," ++ utf8 "\"audience\":\"https://weather.example\","
    ++ utf8 "\"instances\":[" ++ instances ++ utf8 "]\x7d]\x7d"

def answerOf (content : Bytes) : Answer :=
  .ok ⟨⟨utf8 "routing"⟩, some content, ConfigCenter.unscopedRevision⟩

/-- Two instances, the second with this ID. -/
def listed (id : Bytes) : Answer :=
  answerOf (documentText (instanceText (utf8 "a") (utf8 "10.0.0.1") ++ byte ','
    :: instanceText id (utf8 "10.0.0.2")))

theorem checked_document_serves_listed :
    let _ : UnicodeCase := ⟨fun r => r⟩
    (∃ document, loadDocument (listed (utf8 "b")) = .ok document
      ∧ (Serves (listed (utf8 "b")) document weatherTarget ↔ ∀ entry ∈ document.targets.items,
        releaseTarget entry = .ok weatherTarget →
          (entry.instances.items.map (·.instanceID)).Nodup))
      ∧ ∃ s, snapshot (listed (utf8 "b")) weatherTarget = .ok s
        ∧ s.instances.map Instance.id = [utf8 "a", utf8 "b"] := by
  intro _
  have hids : (fun s => s.instances.map Instance.id)
      <$> snapshot (listed (utf8 "b")) weatherTarget = .ok [utf8 "a", utf8 "b"] := by
    decide +kernel
  obtain ⟨s, hs, hinstances⟩ := map_ok_iff.mp hids
  obtain ⟨hcheck, htarget⟩ := check_of_snapshot hs
  exact ⟨checked_document_serves hcheck htarget, s, hs, hinstances⟩

/-- Two instances with one ID pass the check and make the snapshot invalid. -/
theorem checked_document_invalid :
    let _ : UnicodeCase := ⟨fun r => r⟩
    check (listed (utf8 "a")) = .ok () ∧ weatherTarget.validate = .ok ()
      ∧ snapshot (listed (utf8 "a")) weatherTarget = .error errInvalid := by
  decide +kernel

end Sample

end ConfigDirectory

end Nekiro
