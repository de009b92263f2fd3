import Nekiro.TopologyDelta

/-!
# The Nacos directory

`snapshotFromPayload`: the hosts of a service as the Nacos server reports
them, made into a snapshot. A payload that is not the service of the
binding, or has a host that is not as it should be, is refused as a whole.
A snapshot is empty or populated, never missing
(`snapshotFromPayload_state`), which is what the change of the provider
rests on: `topologyDelta_spec`.
-/

namespace Nekiro

open Json Guard Strings

namespace Registry

namespace Nacos

/-! ## Payloads -/

/-- `registry/nacos.Binding`. -/
structure Binding where
  target : ReleaseTarget
  serviceName : Bytes
  groupName : Bytes
  clusterName : Bytes

structure Host where
  ip : String
  port : Int
  healthy : Bool
  enabled : Bool
  ephemeral : Bool
  clusterName : String
  metadata : List (String × String)

def Host.zero : Host := ⟨"", 0, false, false, false, "", []⟩

structure ListResponse where
  name : String
  groupName : String
  clusters : String
  hosts : SliceVar Host

def Host.fields : List (Json.Field Host) :=
  [.of "ip" ip (fun h v => { h with ip := v }) decodeString,
    .of "port" port (fun h v => { h with port := v }) decodeInt64,
    .of "healthy" healthy (fun h v => { h with healthy := v }) decodeBool,
    .of "enabled" enabled (fun h v => { h with enabled := v }) decodeBool,
    .of "ephemeral" ephemeral (fun h v => { h with ephemeral := v }) decodeBool,
    .of "clusterName" clusterName (fun h v => { h with clusterName := v }) decodeString,
    .of "metadata" metadata (fun h v => { h with metadata := v }) decodeTexts]

def ListResponse.fields : List (Json.Field ListResponse) :=
  [.of "name" name (fun r v => { r with name := v }) decodeString,
    .of "groupName" groupName (fun r v => { r with groupName := v }) decodeString,
    .of "clusters" clusters (fun r v => { r with clusters := v }) decodeString,
    .of "hosts" hosts (fun r v => { r with hosts := v })
      (decodeSlice .zero (decodeStruct false Host.fields))]

def maxInstances : Nat := 4096

def instanceIDMetadataKey : String := "nekiro.instanceId"

/-- The list names the service with its group or without. -/
def matchesServiceInfoIdentity (response : ListResponse) (binding : Binding) : Bool :=
  (utf8 response.name = binding.serviceName
      || utf8 response.name = binding.groupName ++ utf8 "@@" ++ binding.serviceName)
    && utf8 response.groupName = binding.groupName && utf8 response.clusters = binding.clusterName

def decodeHost (binding : Binding) (portName : Bytes) (value : Host) :
    Except OutcomeError Instance :=
  match Netip.parseIP (utf8 value.ip), value.metadata.lookup instanceIDMetadataKey with
  | some ip, some instanceID => do
      require (Netip.ipText ip = utf8 value.ip ∧ value.ephemeral = true
        ∧ utf8 value.clusterName = binding.clusterName) errInvalid
      let addressType := if (Netip.to4 ip).isSome then addressTypeIPv4 else addressTypeIPv6
      let endpoint ← orFail errInvalid
        (NetworkEndpoint.new ⟨addressType, utf8 value.ip, portName, value.port,
          transportProtocolTCP⟩)
      let ready := value.healthy && value.enabled
      orFail errInvalid
        (Instance.new ⟨utf8 instanceID, [endpoint], ready, ready, false, none, none, .empty⟩)
  | _, _ => .error errInvalid

def decodeInstances (data : Bytes) (binding : Binding) (portName : Bytes) :
    Except OutcomeError (List Instance) :=
  match Json.read Json.maxNestingDepth data >>= fun v =>
      decodeStruct false ListResponse.fields v ⟨"", "", "", .zero⟩ with
  | none => .error errInvalid
  | some response =>
      match response.hosts.shown with
      | none => .error errInvalid
      | some hosts => do
          require (matchesServiceInfoIdentity response binding ∧ hosts.length ≤ maxInstances)
            errInvalid
          hosts.mapM (decodeHost binding portName)

variable [UnicodeCase]

def snapshotFromPayload (data : Bytes) (binding : Binding) (portName : Bytes)
    (localOrder : UInt64) :
    Except OutcomeError InstanceSnapshot := do
  let instances ← decodeInstances data binding portName
  let revision ← orFail errInvalid
    (Revision.new ⟨[utf8 (Hex.encode (Sha256.sum data))], localOrder⟩)
  InstanceSnapshot.new ⟨binding.target, revision, if instances = [] then .empty else .populated,
    instances⟩

theorem snapshotFromPayload_valid {data : Bytes} {binding : Binding} {portName : Bytes}
    {localOrder : UInt64} {s : InstanceSnapshot}
    (h : snapshotFromPayload data binding portName localOrder = .ok s) : s.validate = .ok () := by
  unfold snapshotFromPayload at h
  obtain ⟨instances, -, h⟩ := bind_ok_iff.mp h
  obtain ⟨revision, -, h⟩ := bind_ok_iff.mp h
  obtain ⟨-, -, hvalid, -⟩ := InstanceSnapshot.new_ok_iff.mp h
  exact InstanceSnapshot.validate_ok_iff.mpr hvalid

/-- A target that Nacos lists is not missing. -/
theorem snapshotFromPayload_state {data : Bytes} {binding : Binding} {portName : Bytes}
    {localOrder : UInt64} {s : InstanceSnapshot}
    (h : snapshotFromPayload data binding portName localOrder = .ok s) : s.state ≠ .missing := by
  unfold snapshotFromPayload at h
  obtain ⟨instances, -, h⟩ := bind_ok_iff.mp h
  obtain ⟨revision, -, h⟩ := bind_ok_iff.mp h
  obtain ⟨-, -, -, rfl⟩ := InstanceSnapshot.new_ok_iff.mp h
  by_cases hnil : instances = []
  · simp [hnil]
  · simp [hnil]

end Nacos

/-! ## Differences and their changes -/

section Spec

variable [UnicodeCase]

/-- The difference of two valid snapshots is exact, and the change that a
provider builds from it is accepted if the topology differs. -/
theorem topologyDelta_spec {p n : InstanceSnapshot} (hp : p.validate = .ok ())
    (hn : n.validate = .ok ()) {keys : List Bytes}
    (hkeys : keys.Perm (p.instances.map Instance.id)) :
    (applyDelta p.instances (topologyDelta p n keys) = n.instances
      ∧ (∀ id ∈ (topologyDelta p n keys).2, (∃ i ∈ p.instances, i.id = id)
        ∧ ∀ i ∈ n.instances, i.id ≠ id)
      ∧ ∀ i, i ∈ (topologyDelta p n keys).1 ↔ i ∈ n.instances
        ∧ ∀ prior ∈ p.instances, prior.id = i.id → prior.equal i = false)
      ∧ (samePublicTopology p n = false → n.revision.localOrder = p.revision.localOrder + 1 →
        p.revision.localOrder.toNat + 1 < 2 ^ 64 →
          (∃ c, InstanceChange.new (kubernetesChange p n keys) = .ok c)
          ∧ ∀ data data' binding portName,
            Nacos.snapshotFromPayload data binding portName p.revision.localOrder = .ok p →
            Nacos.snapshotFromPayload data' binding portName n.revision.localOrder = .ok n →
              ∃ c, InstanceChange.new (nacosChange p n keys) = .ok c) := by
  rw [InstanceSnapshot.validate_ok_iff] at hp hn
  refine ⟨⟨applyDelta_topologyDelta hp hn hkeys, fun id hid => ?_, fun i => ?_⟩,
    fun hdiffers horder hwrap => ?_⟩
  · obtain ⟨hprevious, hnext⟩ := (mem_deleted_iff hkeys).mp hid
    refine ⟨List.mem_map.mp hprevious, fun i hi heq => ?_⟩
    exact hnext (heq ▸ List.mem_map_of_mem hi)
  · rw [mem_upserts_iff hp]
    refine and_congr_right fun _ => ⟨fun hnot prior hprior hid => ?_, fun hnone hmem => ?_⟩
    · rw [Bool.eq_false_iff, ne_eq, (hp.instance_ prior hprior).equal_iff]
      exact fun heq => hnot (heq ▸ hprior)
    · have hequal := hnone i hmem rfl
      rw [((hp.instance_ i hmem).equal_iff).mpr rfl] at hequal
      cases hequal
  · have hzero : n.revision.localOrder ≠ 0 := by
      intro heq
      have hnat := congrArg UInt64.toNat (horder.symm.trans heq)
      rw [UInt64.toNat_add, UInt64.toNat_one, Nat.mod_eq_of_lt hwrap] at hnat
      simp at hnat
    refine ⟨kubernetesChange_accepted hp hn hkeys hzero hdiffers, ?_⟩
    intro data data' binding portName hpayload hpayload'
    exact nacosChange_accepted hp hn hkeys hzero (Nacos.snapshotFromPayload_state hpayload)
      (Nacos.snapshotFromPayload_state hpayload') hdiffers

end Spec

/-! ## A service that gets its first host -/

namespace Listed

def binding : Nacos.Binding :=
  ⟨weatherTarget, utf8 "weather", utf8 "agents", utf8 "c1"⟩

def listOf (hosts : Bytes) : Bytes :=
  utf8 "\x7b\"name\":\"weather\",\"groupName\":\"agents\","
    ++ utf8 "\"clusters\":\"c1\",\"hosts\":["
    ++ hosts ++ utf8 "]\x7d"

def host : Bytes :=
  utf8 "\x7b\"ip\":\"10.0.0.1\",\"port\":80," ++ utf8 "\"healthy\":true,\"enabled\":true,"
    ++ utf8 "\"ephemeral\":true,\"clusterName\":\"c1\"," ++ utf8 "\"metadata\":\x7b"
    ++ utf8 "\"nekiro.instanceId\":\"a\"\x7d\x7d"

def snapshot (data : Bytes) (localOrder : UInt64) (state : SnapshotState)
    (instances : List Instance) : InstanceSnapshot :=
  ⟨binding.target, ⟨[utf8 (Hex.encode (Sha256.sum data))], localOrder⟩, state, instances⟩

def first : Instance where
  id := utf8 "a"
  endpoints := [⟨addressTypeIPv4, utf8 "10.0.0.1", utf8 "http", 80, transportProtocolTCP⟩]
  ready := true
  serving := true
  terminating := false
  state := .ready
  zone := none
  weight := none
  metadata := .empty

def before : InstanceSnapshot := snapshot (listOf []) 0 .empty []

def after : InstanceSnapshot := snapshot (listOf host) 1 .populated [first]

theorem change_accepted :
    let _ : UnicodeCase := ⟨fun r => r⟩
    Nacos.snapshotFromPayload (listOf []) binding (utf8 "http") 0 = .ok before
      ∧ Nacos.snapshotFromPayload (listOf host) binding (utf8 "http") 1 = .ok after
      ∧ applyDelta [] (topologyDelta before after []) = [first]
      ∧ ∃ c, InstanceChange.new (nacosChange before after []) = .ok c := by
  intro _
  have hbefore : Nacos.snapshotFromPayload (listOf []) binding (utf8 "http") 0 = .ok before := by
    decide +kernel
  have hafter : Nacos.snapshotFromPayload (listOf host) binding (utf8 "http") 1 = .ok after := by
    decide +kernel
  have hspec := topologyDelta_spec (Nacos.snapshotFromPayload_valid hbefore)
    (Nacos.snapshotFromPayload_valid hafter) (List.Perm.refl [])
  exact ⟨hbefore, hafter, hspec.1.1,
    (hspec.2 (by decide +kernel) rfl (by decide)).2 _ _ _ _ hbefore hafter⟩

end Listed

end Registry

end Nekiro
