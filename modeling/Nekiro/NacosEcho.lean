import Nekiro.NacosRegistrar

/-!
# Registrations read back

What `Registrar.Register` posts, a faithful Nacos server lists, and the
directory reads. The registrar takes any text as an address and posts the
ID of the instance in JSON; the directory wants the canonical text of an IP
address and finds out itself of which type it is. So a registration is read
back exactly if its address is such a text, of the declared type, and its
ID is UTF-8 (`registration_read_back`); otherwise one registration makes
the snapshot of the whole service invalid or shows another instance.
-/

namespace Nekiro

open Json Guard Strings

namespace Registry.Nacos

/-! ## What is posted -/

def heartbeatIntervalMetadataKey : String := "preserved.heart.beat.interval"

def heartbeatTimeoutMetadataKey : String := "preserved.heart.beat.timeout"

def ipDeleteTimeoutMetadataKey : String := "preserved.ip.delete.timeout"

/-- The timeouts of the configuration that go into the metadata. -/
structure Timeouts where
  heartbeatTimeout : Int
  ipDeleteTimeout : Int

def metadataValues (config : RegistrarConfig) (timeouts : Timeouts) (i : Instance) : StringMap :=
  (((i.metadata.put (utf8 instanceIDMetadataKey) i.id).put (utf8 heartbeatIntervalMetadataKey)
    (decimal (milliseconds config.heartbeatInterval))).put (utf8 heartbeatTimeoutMetadataKey)
    (decimal (milliseconds timeouts.heartbeatTimeout))).put (utf8 ipDeleteTimeoutMetadataKey)
    (decimal (milliseconds timeouts.ipDeleteTimeout))

/-- The metadata as a reader of the JSON text has it. -/
def postedMetadata (config : RegistrarConfig) (timeouts : Timeouts) (i : Instance) :
    List (String × String) :=
  (metadataValues config timeouts i).entries.map fun e => (coerced e.1, coerced e.2)

/-- The listed entries are the map that was posted, in any order; a key
that was posted twice has one of its values. -/
structure SameMap (entries posted : List (String × String)) : Prop where
  value_mem : ∀ key value, entries.lookup key = some value → (key, value) ∈ posted
  key_listed : ∀ key value, (key, value) ∈ posted → (entries.lookup key).isSome = true

/-- A host of the list as the registrar has posted it. -/
structure Echoes (config : RegistrarConfig) (timeouts : Timeouts) (registration : Registration)
    (endpoint : NetworkEndpoint) (host : Host) : Prop where
  ip : utf8 host.ip = endpoint.address
  port : host.port = endpoint.port
  clusterName : utf8 host.clusterName = config.binding.clusterName
  metadata : SameMap host.metadata (postedMetadata config timeouts registration.inst)
  ephemeral : host.ephemeral = true
  healthy : host.healthy = true
  enabled : host.enabled = true

/-- A payload that is this list. -/
def Lists (data : Bytes) (response : ListResponse) (hosts : List Host) : Prop :=
  (Json.read Json.maxNestingDepth data >>= fun v =>
      decodeStruct false ListResponse.fields v ⟨"", "", "", .zero⟩) = some response
    ∧ response.hosts.shown = some hosts

theorem get_metadataValues (config : RegistrarConfig) (timeouts : Timeouts) (i : Instance) :
    (metadataValues config timeouts i).get (utf8 instanceIDMetadataKey) = some i.id := by
  have hne : ∀ {s t : String}, s ≠ t → utf8 s ≠ utf8 t := fun h heq => h (utf8_inj.mp heq)
  rw [metadataValues, TextMap.get_put_of_ne (hne (by decide)),
    TextMap.get_put_of_ne (hne (by decide)), TextMap.get_put_of_ne (hne (by decide)),
    TextMap.get_put_self]

/-- No other key is written as that of the ID. -/
theorem mem_postedMetadata {config : RegistrarConfig} {timeouts : Timeouts} {i : Instance}
    {value : String} :
    (instanceIDMetadataKey, value) ∈ postedMetadata config timeouts i ↔ value = coerced i.id := by
  have hget := get_metadataValues config timeouts i
  constructor
  · intro hmem
    obtain ⟨⟨key, text⟩, hentry, heq⟩ := List.mem_map.mp hmem
    obtain ⟨hkey, rfl⟩ := Prod.mk.inj heq
    obtain rfl := (coerced_eq_iff (by decide)).mp hkey
    rw [TextMap.get_eq_some_iff.mpr hentry] at hget
    rw [Option.some.inj hget]
  · rintro rfl
    have hmem := List.mem_map_of_mem (f := fun e : Bytes × Bytes => (coerced e.1, coerced e.2))
      (TextMap.get_eq_some_iff.mp hget)
    rwa [coerced_utf8] at hmem

theorem SameMap.lookup_eq {entries posted : List (String × String)} {key value : String}
    (h : SameMap entries posted) (hkey : ∀ v, (key, v) ∈ posted ↔ v = value) :
    entries.lookup key = some value := by
  obtain ⟨v, hv⟩ := Option.isSome_iff_exists.mp (h.key_listed key value ((hkey value).mpr rfl))
  rw [hv, (hkey v).mp (h.value_mem key v hv)]

theorem SameMap.of_perm {entries posted : List (String × String)} (h : entries.Perm posted) :
    SameMap entries posted where
  value_mem key value hlookup := h.mem_iff.mp (mem_of_lookup hlookup)
  key_listed key value hmem := by
    rw [Option.isSome_iff_ne_none]
    intro hnone
    simpa using List.lookup_eq_none_iff.mp hnone (key, value) (h.mem_iff.mpr hmem)

/-! ## What is read -/

/-- The address type that the directory sees. -/
def addressTypeOf (ip : Netip.Addr) : Bytes :=
  if (Netip.to4 ip).isSome then addressTypeIPv4 else addressTypeIPv6

def hostEndpoint (portName : Bytes) (ip : Netip.Addr) (value : Host) : NetworkEndpoint :=
  ⟨addressTypeOf ip, utf8 value.ip, portName, value.port, transportProtocolTCP⟩

def hostInstance (portName : Bytes) (ip : Netip.Addr) (id : String) (value : Host) : Instance :=
  let ready := value.healthy && value.enabled
  ⟨utf8 id, [hostEndpoint portName ip value], ready, ready, false,
    deriveLifecycleState ready ready false, none, none, .empty⟩

variable {portName : Bytes} {value : Host} {binding : Binding} {i : Instance}
  {instances : List Instance}

theorem hostInstance_valid {ip : Netip.Addr} {id : String}
    (hendpoint : (hostEndpoint portName ip value).Valid) (hid : validExactText (utf8 id) = true) :
    (hostInstance portName ip id value).Valid where
  id := hid
  nonEmpty := List.cons_ne_nil _ _
  endpoint := List.forall_mem_singleton.mpr hendpoint
  inOrder := List.pairwise_singleton _ _
  state := rfl
  zone := nofun
  metadata := nofun

theorem decodeHost_ok_iff :
    decodeHost binding portName value = .ok i ↔ ∃ ip id,
      Netip.parseIP (utf8 value.ip) = some ip
        ∧ value.metadata.lookup instanceIDMetadataKey = some id
        ∧ (Netip.ipText ip = utf8 value.ip ∧ value.ephemeral = true
          ∧ utf8 value.clusterName = binding.clusterName)
        ∧ (hostEndpoint portName ip value).Valid ∧ validExactText (utf8 id) = true
        ∧ i = hostInstance portName ip id value := by
  unfold decodeHost
  cases hip : Netip.parseIP (utf8 value.ip) with
  | none => simp
  | some ip =>
      cases hid : value.metadata.lookup instanceIDMetadataKey with
      | none => simp
      | some id =>
          rw [check_bind_ok_iff, require_ok_iff, bind_ok_iff]
          simp only [orFail_ok_iff]
          constructor
          · rintro ⟨hhost, endpoint, hnew, hinstance⟩
            obtain ⟨hendpoint, heq⟩ := check_bind_ok_iff.mp hnew
            cases heq
            obtain ⟨-, -, hvalid, rfl⟩ := Instance.new_ok_iff.mp hinstance
            exact ⟨ip, id, rfl, rfl, hhost, hendpoint, hvalid.id, rfl⟩
          · rintro ⟨_, _, ⟨⟩, ⟨⟩, hhost, hendpoint, hvalid, rfl⟩
            refine ⟨hhost, _, check_bind_ok_iff.mpr ⟨hendpoint, rfl⟩, Instance.new_ok_iff.mpr ?_⟩
            exact ⟨List.forall_mem_singleton.mpr hendpoint, List.nodup_singleton _,
              hostInstance_valid hendpoint hvalid, rfl⟩

/-- The ID under which a host is listed. -/
def hostID (value : Host) : Option String := value.metadata.lookup instanceIDMetadataKey

theorem idKey_of_decodeHost (h : decodeHost binding portName value = .ok i) :
    ∃ id, hostID value = some id ∧ i.id = utf8 id := by
  obtain ⟨ip, id, -, hid, -, -, -, rfl⟩ := decodeHost_ok_iff.mp h
  exact ⟨id, hid, rfl⟩

theorem nodup_idKey_iff_hostID {hosts : List Host}
    (h : hosts.mapM (decodeHost binding portName) = .ok instances) :
    (instances.map idKey).Nodup ↔ (hosts.map hostID).Nodup := by
  obtain ⟨ids, hhosts, hinstances⟩ : ∃ ids : List String, hosts.map hostID = ids.map some
      ∧ instances.map idKey = ids.map fun id => byteKey (utf8 id) := by
    rw [mapM_ok_iff] at h
    induction h with
    | nil => exact ⟨[], rfl, rfl⟩
    | cons hhead _ ih =>
        obtain ⟨id, hhost, hid⟩ := idKey_of_decodeHost hhead
        obtain ⟨ids, hhosts, hinstances⟩ := ih
        refine ⟨id :: ids, ?_, ?_⟩
        · rw [List.map_cons, List.map_cons, hhost, hhosts]
        · rw [List.map_cons, List.map_cons, hinstances, idKey, hid]
  rw [hhosts, hinstances, List.nodup_map_iff (Option.some_injective _),
    List.nodup_map_iff fun id id' heq => utf8_inj.mp (byteKey_injective heq)]

theorem revision_valid_of_sum (data : Bytes) (localOrder : UInt64) :
    (⟨[utf8 (Hex.encode (Sha256.sum data))], localOrder⟩ : Revision).Valid := by
  obtain ⟨hlength, hlower⟩ := Hex.encodeChars_spec (Sha256.sum data)
  have hrunes : runes (utf8 (Hex.encode (Sha256.sum data))) = Hex.encodeChars
      (Sha256.sum data) := by
    rw [runes_utf8, Hex.encode, String.toList_ofList]
  refine ⟨List.cons_ne_nil _ _, List.forall_mem_singleton.mpr (validExactText_of_runes ?_ ?_)⟩
  · intro hnil
    rw [hnil] at hrunes
    rw [← hrunes, Sha256.length_sum] at hlength
    cases hlength
  · intro r hr
    rw [hrunes] at hr
    rcases Hex.isLower_cases (hlower r hr) with h | h <;> omega

theorem decodeInstances_ok_iff {data : Bytes} {response : ListResponse} {hosts : List Host}
    (hlists : Lists data response hosts) :
    decodeInstances data binding portName = .ok instances ↔
      (matchesServiceInfoIdentity response binding = true ∧ hosts.length ≤ maxInstances)
        ∧ hosts.mapM (decodeHost binding portName) = .ok instances := by
  rw [decodeInstances, hlists.1]
  dsimp only
  rw [hlists.2]
  dsimp only
  rw [check_bind_ok_iff, require_ok_iff]

theorem valid_of_decodeHost (h : decodeHost binding portName value = .ok i) : i.Valid := by
  obtain ⟨ip, id, -, -, -, hendpoint, hid, rfl⟩ := decodeHost_ok_iff.mp h
  exact hostInstance_valid hendpoint hid

section Payload

variable [UnicodeCase]

/-- A snapshot is made of a list exactly if every host can be read and they
have different IDs. -/
theorem snapshotFromPayload_ok_iff {data : Bytes} {response : ListResponse} {hosts : List Host}
    (hlists : Lists data response hosts) {binding : Binding} {portName : Bytes}
    {localOrder : UInt64} {s : InstanceSnapshot} (htarget : binding.target.validate = .ok ()) :
    snapshotFromPayload data binding portName localOrder = .ok s ↔
      (matchesServiceInfoIdentity response binding = true ∧ hosts.length ≤ maxInstances)
        ∧ (hosts.map hostID).Nodup ∧ ∃ instances,
          hosts.mapM (decodeHost binding portName) = .ok instances
          ∧ s = ⟨binding.target, ⟨[utf8 (Hex.encode (Sha256.sum data))], localOrder⟩,
            if instances = [] then .empty else .populated, sortBy idKey instances⟩ := by
  have hrevision : ∀ {r}, orFail errInvalid
      (Revision.new ⟨[utf8 (Hex.encode (Sha256.sum data))], localOrder⟩) = .ok r ↔
        r = ⟨[utf8 (Hex.encode (Sha256.sum data))], localOrder⟩ := by
    intro r
    rw [orFail_ok_iff, Revision.new, check_bind_ok_iff, Revision.validate_ok_iff]
    refine ⟨fun h => (Except.ok.inj h.2).symm, ?_⟩
    rintro rfl
    exact ⟨revision_valid_of_sum data localOrder, rfl⟩
  rw [snapshotFromPayload, bind_ok_iff]
  simp only [decodeInstances_ok_iff hlists, bind_ok_iff, hrevision, exists_eq_left]
  have hvalid : ∀ {instances}, hosts.mapM (decodeHost binding portName) = .ok instances →
      ∀ i ∈ instances, i.Valid := by
    intro instances hdecode i hi
    obtain ⟨value, -, hvalue⟩ := (mem_of_mapM_ok hdecode).mp hi
    exact valid_of_decodeHost hvalue
  have hnew := fun instances (hdecode : hosts.mapM (decodeHost binding portName) = .ok instances) =>
    @InstanceSnapshot.new_listed_ok_iff _ binding.target _ instances s htarget
      (revision_valid_of_sum data localOrder) (hvalid hdecode)
  constructor
  · rintro ⟨instances, ⟨hidentity, hdecode⟩, hsnapshot⟩
    obtain ⟨hnodup, rfl⟩ := (hnew instances hdecode).mp hsnapshot
    exact ⟨hidentity, (nodup_idKey_iff_hostID hdecode).mp hnodup, instances, hdecode, rfl⟩
  · rintro ⟨hidentity, hnodup, instances, hdecode, rfl⟩
    exact ⟨instances, ⟨hidentity, hdecode⟩, (hnew instances hdecode).mpr
      ⟨(nodup_idKey_iff_hostID hdecode).mpr hnodup, rfl⟩⟩

/-! ## Reading a registration back -/

/-- The address is the canonical text of an IP address of the declared type. -/
def Canonical (endpoint : NetworkEndpoint) : Prop :=
  ∃ ip, Netip.parseIP endpoint.address = some ip ∧ Netip.ipText ip = endpoint.address
    ∧ endpoint.addressType = addressTypeOf ip

/-- The snapshot has one instance with the registered ID, and it is ready
and reached as registered. -/
def ReadBack (config : RegistrarConfig) (registration : Registration) (endpoint : NetworkEndpoint)
    (data : Bytes) (localOrder : UInt64) : Prop :=
  ∃ s i e, snapshotFromPayload data config.binding config.portName localOrder = .ok s
    ∧ s.instances.filter (fun j => j.id = registration.inst.id) = [i] ∧ i.state = .ready
    ∧ i.endpoints = [e] ∧ e.addressType = endpoint.addressType ∧ e.address = endpoint.address
    ∧ e.port = endpoint.port

theorem checks_ok {config : RegistrarConfig} {context : Context} {registration : Registration}
    {endpoint : NetworkEndpoint} (h : config.checks context registration = .ok endpoint) :
    config.binding.target.validate = .ok () ∧ registration.inst.Valid ∧ endpoint.Valid
      ∧ endpoint.portName = config.portName ∧ endpoint.protocol = transportProtocolTCP := by
  unfold RegistrarConfig.checks at h
  split at h
  · cases h
  · obtain ⟨hvalidate, h⟩ := check_bind_ok_iff.mp h
    obtain ⟨htarget, h⟩ := check_bind_ok_iff.mp h
    rw [require_ok_iff] at htarget
    simp only [Registration.validate, check_bind_ok_iff, orFail_ok_iff,
      InstanceSnapshot.validateTarget_ok_iff, Instance.validate_ok_iff] at hvalidate
    obtain ⟨hvalid, hinst, -⟩ := hvalidate
    split at h
    · cases h
    · unfold registrationEndpoint at h
      split at h
      · rename_i e hfilter
        cases h
        have hmem : endpoint ∈ [endpoint] := List.mem_singleton_self _
        rw [← hfilter, List.mem_filter, decide_eq_true_eq] at hmem
        exact ⟨htarget ▸ hvalid, hinst, hinst.endpoint _ hmem.1, hmem.2.1, hmem.2.2.1⟩
      · cases h

section ReadBack

variable {config : RegistrarConfig} {context : Context} {registration : Registration}
  {endpoint : NetworkEndpoint} {timeouts : Timeouts} {host : Host}

omit [UnicodeCase] in
theorem Echoes.hostID (h : Echoes config timeouts registration endpoint host) :
    hostID host = some (coerced registration.inst.id) :=
  h.metadata.lookup_eq fun _ => mem_postedMetadata

/-- The host of a registration with a canonical address and an ID of UTF-8 is read. -/
theorem Echoes.decodeHost_eq (hecho : Echoes config timeouts registration endpoint host)
    (hchecks : config.checks context registration = .ok endpoint) (hcanonical : Canonical endpoint)
    {id : String} (hid : utf8 id = registration.inst.id) :
    ∃ i, decodeHost config.binding config.portName host = .ok i ∧ i.id = registration.inst.id
      ∧ i.state = .ready ∧ i.endpoints = [endpoint] := by
  obtain ⟨-, hinst, hendpoint, hportName, hprotocol⟩ := checks_ok hchecks
  obtain ⟨ip, hparse, htext, htype⟩ := hcanonical
  have hsame : hostEndpoint config.portName ip host = endpoint := by
    obtain ⟨type, address, portName, port, protocol⟩ := endpoint
    simp only [hostEndpoint, hecho.ip, hecho.port, NetworkEndpoint.mk.injEq]
    exact ⟨htype.symm, trivial, hportName.symm, trivial, hprotocol.symm⟩
  have hhostID := hecho.hostID
  rw [← hid, coerced_utf8] at hhostID
  refine ⟨hostInstance config.portName ip id host, decodeHost_ok_iff.mpr ⟨ip, id, ?_, hhostID,
    ⟨?_, hecho.ephemeral, hecho.clusterName⟩, hsame ▸ hendpoint, hid ▸ hinst.id, rfl⟩, hid, ?_, ?_⟩
  · rw [hecho.ip, hparse]
  · rw [hecho.ip, htext]
  · simp only [hostInstance, hecho.healthy, hecho.enabled]
    rfl
  · simp only [hostInstance, hsame]

omit [UnicodeCase] in
/-- What the directory reads under the registered ID from the host. -/
theorem Echoes.of_decodeHost (hecho : Echoes config timeouts registration endpoint host)
    {i : Instance} (h : decodeHost config.binding config.portName host = .ok i)
    (hid : i.id = registration.inst.id) {e : NetworkEndpoint} (hendpoints : i.endpoints = [e])
    (htype : e.addressType = endpoint.addressType) :
    Canonical endpoint ∧ ∃ id, utf8 id = registration.inst.id := by
  obtain ⟨ip, id, hparse, -, ⟨htext, -⟩, -, -, rfl⟩ := decodeHost_ok_iff.mp h
  rw [hecho.ip] at hparse htext
  cases hendpoints
  exact ⟨⟨ip, hparse, htext, htype.symm⟩, id, hid⟩

/-- **A registration is read back** by the directory, next to other hosts
that it reads and that have other IDs, exactly if its address is the
canonical text of an IP address of the declared type, its ID is UTF-8, and
the other hosts are no more than there is room for and have different
IDs. -/
theorem registration_read_back {before after : List Host} {data : Bytes} {response : ListResponse}
    {localOrder : UInt64} (hchecks : config.checks context registration = .ok endpoint)
    (hecho : Echoes config timeouts registration endpoint host)
    (hlists : Lists data response (before ++ host :: after))
    (hnames : matchesServiceInfoIdentity response config.binding = true)
    (hothers : ∀ other ∈ before ++ after, ∃ i,
      decodeHost config.binding config.portName other = .ok i ∧ i.id ≠ registration.inst.id) :
    ReadBack config registration endpoint data localOrder ↔
      Canonical endpoint ∧ (∃ id, utf8 id = registration.inst.id)
        ∧ (before ++ after).length < maxInstances ∧ ((before ++ after).map hostID).Nodup := by
  have hperm : (before ++ host :: after).Perm (host :: (before ++ after)) := List.perm_middle
  have hsnapshot := fun s => @snapshotFromPayload_ok_iff _ _ _ _ hlists config.binding
    config.portName localOrder s (checks_ok hchecks).1
  constructor
  · rintro ⟨s, i, e, hs, hfilter, -, hendpoints, htype, -⟩
    obtain ⟨⟨-, hlength⟩, hnodup, instances, hdecode, rfl⟩ := (hsnapshot s).mp hs
    have hi : i ∈ [i] := List.mem_singleton_self i
    rw [← hfilter, List.mem_filter, decide_eq_true_eq, mem_sortBy] at hi
    obtain ⟨value, hvalue, hread⟩ := (mem_of_mapM_ok hdecode).mp hi.1
    -- The other hosts have other IDs, so this one is the registration's.
    obtain rfl : value = host := by
      rcases List.mem_cons.mp (hperm.mem_iff.mp hvalue) with heq | hother
      · exact heq
      · obtain ⟨j, hj, hne⟩ := hothers value hother
        rw [hread] at hj
        exact absurd (Except.ok.inj hj ▸ hi.2) hne
    rw [(hperm.map hostID).nodup_iff, List.map_cons, List.nodup_cons] at hnodup
    rw [hperm.length_eq, List.length_cons] at hlength
    obtain ⟨hcanonical, hid⟩ := hecho.of_decodeHost hread hi.2 hendpoints htype
    exact ⟨hcanonical, hid, hlength, hnodup.2⟩
  · rintro ⟨hcanonical, ⟨id, hid⟩, hlength, hnodup⟩
    obtain ⟨i, hread, hsame, hstate, hendpoints⟩ := hecho.decodeHost_eq hchecks hcanonical hid
    have hall : ∀ value ∈ before ++ host :: after, ∃ j,
        decodeHost config.binding config.portName value = .ok j := by
      intro value hvalue
      rcases List.mem_cons.mp (hperm.mem_iff.mp hvalue) with rfl | hother
      · exact ⟨i, hread⟩
      · obtain ⟨j, hj, -⟩ := hothers value hother
        exact ⟨j, hj⟩
    have hids : ((before ++ host :: after).map hostID).Nodup := by
      rw [(hperm.map hostID).nodup_iff, List.map_cons, List.nodup_cons]
      refine ⟨fun hmem => ?_, hnodup⟩
      obtain ⟨other, hother, heq⟩ := List.mem_map.mp hmem
      obtain ⟨j, hj, hne⟩ := hothers other hother
      obtain ⟨id', hid', hj'⟩ := idKey_of_decodeHost hj
      rw [hid', hecho.hostID, ← hid, coerced_utf8, Option.some.injEq] at heq
      rw [hj', heq, hid] at hne
      exact hne rfl
    obtain ⟨instances, hdecode⟩ := exists_mapM_ok_iff.mpr hall
    have hmem := (mem_of_mapM_ok hdecode).mpr ⟨host, by simp, hread⟩
    have hs :=
      (hsnapshot _).mpr ⟨⟨hnames, by rw [hperm.length_eq, List.length_cons]; exact hlength⟩,
      hids, instances, hdecode, rfl⟩
    refine ⟨_, i, endpoint, hs, ?_, hstate, hendpoints, rfl, rfl, rfl⟩
    have hkeys := inOrder_sortBy ((nodup_idKey_iff_hostID hdecode).mpr hids)
    refine filter_eq_singleton hkeys.nodup (mem_sortBy.mpr hmem) (decide_eq_true hsame) ?_
    intro j _ hj
    rw [idKey, idKey, of_decide_eq_true hj, hsame]

end ReadBack

end Payload

/-! ## A registration that is listed -/

namespace Registered

deriving instance DecidableEq for SliceVar, Host, ListResponse

def timeouts : Timeouts := ⟨15000000000, 30000000000⟩

/-- The server lists the metadata in an order of its own. -/
def listedMetadata (id : String) : List (String × String) :=
  [("preserved.ip.delete.timeout", "30000"), ("preserved.heart.beat.timeout", "15000"),
    ("preserved.heart.beat.interval", "5000"), ("nekiro.instanceId", id)]

def hostAt (address id : String) : Host := ⟨address, 80, true, true, true, "c1", listedMetadata id⟩

def hostText (address id : String) : Bytes :=
  utf8 "\x7b\"ip\":\"" ++ utf8 address ++ utf8 "\",\"port\":80,"
    ++ utf8 "\"healthy\":true,\"enabled\":true,"
      ++ utf8 "\"ephemeral\":true,\"clusterName\":\"c1\","
    ++ utf8 "\"metadata\":\x7b" ++ utf8 "\"preserved.ip.delete.timeout\":\"30000\","
    ++ utf8 "\"preserved.heart.beat.timeout\":\"15000\","
    ++ utf8 "\"preserved.heart.beat.interval\":\"5000\","
    ++ utf8 "\"nekiro.instanceId\":\"" ++ utf8 id ++ utf8 "\"\x7d\x7d"

def responseOf (hosts : List Host) : ListResponse := ⟨"weather", "agents", "c1", ⟨some hosts, []⟩⟩

theorem echoes (address : String) :
    Echoes config timeouts (registrationAt address) (endpointAt address) (hostAt address "a") where
  ip := rfl
  port := rfl
  clusterName := rfl
  metadata := by
    have hperm : (listedMetadata "a").Perm (postedMetadata config timeouts Listed.first) := by
      decide +kernel
    exact .of_perm hperm
  ephemeral := rfl
  healthy := rfl
  enabled := rfl

/-- Two hosts are listed before it. -/
theorem registration_read_back_listed :
    let _ : UnicodeCase := ⟨fun r => r⟩
    ReadBack config (registrationAt "10.0.0.1") (endpointAt "10.0.0.1")
      (Listed.listOf (hostText "10.0.0.3" "c" ++ utf8 "," ++ hostText "10.0.0.2" "b" ++ utf8 ","
        ++ hostText "10.0.0.1" "a")) 0 := by
  intro _
  have hlists : Lists (Listed.listOf (hostText "10.0.0.3" "c" ++ utf8 "," ++ hostText "10.0.0.2" "b"
      ++ utf8 "," ++ hostText "10.0.0.1" "a"))
      (responseOf [hostAt "10.0.0.3" "c", hostAt "10.0.0.2" "b", hostAt "10.0.0.1" "a"])
      ([hostAt "10.0.0.3" "c", hostAt "10.0.0.2" "b"] ++ [hostAt "10.0.0.1" "a"]) :=
    ⟨by decide +kernel, rfl⟩
  have hb : decodeHost config.binding config.portName (hostAt "10.0.0.2" "b") =
      .ok (hostInstance (utf8 "http") (.v4 [10, 0, 0, 2]) "b" (hostAt "10.0.0.2" "b")) := by
    decide +kernel
  have hc : decodeHost config.binding config.portName (hostAt "10.0.0.3" "c") =
      .ok (hostInstance (utf8 "http") (.v4 [10, 0, 0, 3]) "c" (hostAt "10.0.0.3" "c")) := by
    decide +kernel
  refine (registration_read_back checks_registrationAt (echoes "10.0.0.1") hlists
    (by decide +kernel) ?_).mpr ?_
  · intro other hother
    rcases List.mem_pair.mp hother with rfl | rfl
    · exact ⟨_, hc, by decide⟩
    · exact ⟨_, hb, by decide⟩
  · exact ⟨⟨.v4 [10, 0, 0, 1], by decide +kernel, by decide +kernel, rfl⟩, ⟨"a", rfl⟩, by decide,
      by decide +kernel⟩

/-- The registrar takes the name of a host for an IPv4 address, and its
host alone makes the snapshot invalid. -/
theorem registration_not_read_back :
    let _ : UnicodeCase := ⟨fun r => r⟩
    config.checks (some none) (registrationAt "localhost") = .ok (endpointAt "localhost")
      ∧ (Session.new (registrationAt "localhost").inst).outcome saysOk accepted = none
      ∧ Echoes config timeouts (registrationAt "localhost") (endpointAt "localhost")
        (hostAt "localhost" "a")
      ∧ Lists (Listed.listOf (hostText "localhost" "a")) (responseOf [hostAt "localhost" "a"])
        [hostAt "localhost" "a"]
      ∧ matchesServiceInfoIdentity (responseOf [hostAt "localhost" "a"]) config.binding = true
      ∧ snapshotFromPayload (Listed.listOf (hostText "localhost" "a")) config.binding
        config.portName
        0 = .error errInvalid := by
  intro _
  exact ⟨by decide +kernel, by decide +kernel, echoes "localhost", ⟨by decide +kernel, rfl⟩,
    by decide +kernel, by decide +kernel⟩

end Registered

end Registry.Nacos

end Nekiro
