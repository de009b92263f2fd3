import Nekiro.KubernetesWire

/-!
# The topology of a service

`topologyState.instances` merges the records of all endpoint slices: one
instance for each target, with the endpoints of all its records. It goes
through maps, so it may come across the records in any order, and it stops
at the first that disagrees with one before it or takes an endpoint of
another target. `Gathered` says what the maps hold after some records,
whatever their order, and `Consistent` when nothing stops it. What comes out
is told by the records alone (`Merges`).
-/

namespace Nekiro

open Json Guard Strings

namespace Registry

namespace Kubernetes

structure TopologyState where
  servicePresent : Bool
  serviceResourceVersion : Bytes
  endpointResourceVersion : Bytes
  slices : TextMap SliceRecord
deriving DecidableEq

structure AggregateInstance where
  id : Bytes
  ready : Bool
  serving : Bool
  terminating : Bool
  zone : Option Bytes
  metadata : StringMap
  endpoints : TextMap NetworkEndpoint
deriving DecidableEq

/-- The orders in which the three maps are ranged over. -/
structure RangeOrder where
  slices : List (Bytes × SliceRecord) → List (Bytes × SliceRecord)
  aggregates : List (Bytes × AggregateInstance) → List (Bytes × AggregateInstance)
  endpoints : List (Bytes × NetworkEndpoint) → List (Bytes × NetworkEndpoint)
  slices_perm : ∀ l, (slices l).Perm l
  aggregates_perm : ∀ l, (aggregates l).Perm l
  endpoints_perm : ∀ l, (endpoints l).Perm l

def networkEndpointKey (e : NetworkEndpoint) : Bytes :=
  e.addressType ++ 0 :: (e.address ++ 0 :: (e.portName ++ 0 :: (decimal e.port ++ 0 :: e.protocol)))

/-! ## Merging the records -/

structure Aggregates where
  byID : TextMap AggregateInstance
  tupleOwners : TextMap Bytes

def AggregateInstance.agrees (a : AggregateInstance) (r : EndpointRecord) : Bool :=
  a.ready = r.ready && a.serving = r.serving && a.terminating = r.terminating && a.zone = r.zone
    && equalStringMaps a.metadata r.metadata

def Aggregates.aggregateFor (acc : Aggregates) (r : EndpointRecord) :
    Except OutcomeError AggregateInstance :=
  match acc.byID.get r.id with
  | none => .ok ⟨r.id, r.ready, r.serving, r.terminating, r.zone, r.metadata, .empty⟩
  | some a => do
      require (a.agrees r) invalidInput
      pure a

/-- The owners of the endpoints and the endpoints of the target, with one
more. -/
def claimEndpoint (id : Bytes) (acc : TextMap Bytes × TextMap NetworkEndpoint)
    (e : NetworkEndpoint) : Except OutcomeError (TextMap Bytes × TextMap NetworkEndpoint) := do
  let key := networkEndpointKey e
  require ((acc.1.get key).all fun owner => owner = id) invalidInput
  pure (acc.1.put key id, acc.2.put key e)

def Aggregates.addRecord (acc : Aggregates) (r : EndpointRecord) :
    Except OutcomeError Aggregates := do
  let aggregate ← acc.aggregateFor r
  let claimed ← r.endpoints.foldlM (claimEndpoint r.id) (acc.tupleOwners, aggregate.endpoints)
  pure ⟨acc.byID.put r.id { aggregate with endpoints := claimed.2 }, claimed.1⟩

def gather (records : List EndpointRecord) : Except OutcomeError Aggregates :=
  records.foldlM Aggregates.addRecord ⟨.empty, .empty⟩

def newInstance (order : RangeOrder) (a : AggregateInstance) : Except OutcomeError Instance :=
  Instance.new ⟨a.id, (order.endpoints a.endpoints.entries).map Prod.snd, a.ready, a.serving,
    a.terminating, a.zone, none, a.metadata⟩

namespace TopologyState

def instances (s : TopologyState) (order : RangeOrder) : Except OutcomeError (List Instance) := do
  let acc ← gather ((order.slices s.slices.entries).flatMap fun slice => slice.2.endpoints)
  if s.servicePresent then do
    let instances ← (order.aggregates acc.byID.entries).mapM fun a => newInstance order a.2
    pure (sortBy idKey instances)
  else pure []

def snapshot [UnicodeCase] (s : TopologyState) (order : RangeOrder) (target : ReleaseTarget)
    (localOrder : UInt64) : Except OutcomeError InstanceSnapshot := do
  let instances ← s.instances order
  let state := if s.servicePresent then if 0 < instances.length then .populated else .empty
    else .missing
  let revision ← Revision.new ⟨[s.serviceResourceVersion, s.endpointResourceVersion], localOrder⟩
  InstanceSnapshot.new ⟨target, revision, state, instances⟩

/-- The records of all slices. -/
def records (s : TopologyState) : List EndpointRecord :=
  s.slices.entries.flatMap fun slice => slice.2.endpoints

end TopologyState

/-! ## The key of an endpoint -/

theorem append_zero_inj {a a' b b' : Bytes} (ha : 0 ∉ a) (ha' : 0 ∉ a')
    (h : a ++ 0 :: b = a' ++ 0 :: b') : a = a' ∧ b = b' := by
  induction a generalizing a' with
  | nil =>
      cases a' with
      | nil => exact ⟨rfl, (List.cons.inj h).2⟩
      | cons c a' =>
          obtain ⟨hc, -⟩ := List.cons.inj h
          exact absurd (hc ▸ List.mem_cons_self) ha'
  | cons c a ih =>
      cases a' with
      | nil =>
          obtain ⟨hc, -⟩ := List.cons.inj h
          exact absurd (hc ▸ List.mem_cons_self) ha
      | cons c' a' =>
          obtain ⟨rfl, htail⟩ := List.cons.inj h
          obtain ⟨rfl, rfl⟩ := ih (fun hmem => ha (List.mem_cons_of_mem _ hmem))
            (fun hmem => ha' (List.mem_cons_of_mem _ hmem)) htail
          exact ⟨rfl, rfl⟩

theorem zero_notMem_of_validExactText {s : Bytes} (h : validExactText s = true) : 0 ∉ s := by
  intro hmem
  have hrune := mem_runes_of_ascii (by decide) hmem
  simp only [validExactText, Bool.and_eq_true, List.all_eq_true] at h
  have hcontrol := h.2 _ hrune
  revert hcontrol
  decide

theorem zero_notMem_decimal (n : Int) : 0 ∉ decimal n := by
  have hdigits : (0 : UInt8) ∉ decimalNat n.natAbs := fun hmem => by
    have hdigit := List.all_eq_true.mp (all_isDigit_decimalNat n.natAbs) 0 hmem
    revert hdigit
    decide
  unfold decimal
  split
  · intro hmem
    rcases List.mem_cons.mp hmem with hmem | hmem
    · revert hmem
      decide
    · exact hdigits hmem
  · exact hdigits

/-- The fields of a valid endpoint have no zero byte, so the key tells them. -/
theorem networkEndpointKey_inj {e e' : NetworkEndpoint} (he : e.Valid) (he' : e'.Valid)
    (h : networkEndpointKey e = networkEndpointKey e') : e = e' := by
  obtain ⟨type, address, portName, port, protocol⟩ := e
  obtain ⟨type', address', portName', port', protocol'⟩ := e'
  obtain ⟨htype, haddress, hname, hport, -⟩ := NetworkEndpoint.validate_ok_iff.mp he
  obtain ⟨htype', haddress', hname', hport', -⟩ := NetworkEndpoint.validate_ok_iff.mp he'
  dsimp only at htype haddress hname hport htype' haddress' hname' hport'
  unfold networkEndpointKey at h
  obtain ⟨rfl, h⟩ := append_zero_inj (zero_notMem_of_validExactText htype)
    (zero_notMem_of_validExactText htype') h
  obtain ⟨rfl, h⟩ := append_zero_inj (zero_notMem_of_validExactText haddress)
    (zero_notMem_of_validExactText haddress') h
  obtain ⟨rfl, h⟩ := append_zero_inj (zero_notMem_of_validExactText hname)
    (zero_notMem_of_validExactText hname') h
  obtain ⟨hdecimal, rfl⟩ := append_zero_inj (zero_notMem_decimal port) (zero_notMem_decimal port') h
  have hint : ∀ n : Int, 1 ≤ n ∧ n ≤ 65535 → int64 n = some n := fun n hn =>
    if_pos ⟨by omega, by omega⟩
  have hparse := congrArg parseInt64 hdecimal
  rw [parseInt64_decimal (hint port hport), parseInt64_decimal (hint port' hport'),
    Option.some.injEq] at hparse
  rw [hparse]

/-! ## What was gathered -/

structure AggregateInstance.Agrees (a : AggregateInstance) (r : EndpointRecord) : Prop where
  ready : a.ready = r.ready
  serving : a.serving = r.serving
  terminating : a.terminating = r.terminating
  zone : a.zone = r.zone
  metadata : a.metadata = r.metadata

/-- What the maps hold after these records. -/
structure Gathered (records : List EndpointRecord) (acc : Aggregates) : Prop where
  present : ∀ r ∈ records, ∃ a, acc.byID.get r.id = some a ∧ a.Agrees r
  known : ∀ id a, acc.byID.get id = some a → a.id = id ∧ ∃ r ∈ records, r.id = id
  endpoints : ∀ id a, acc.byID.get id = some a → ∀ key e, a.endpoints.get key = some e ↔
    networkEndpointKey e = key ∧ ∃ r ∈ records, r.id = id ∧ e ∈ r.endpoints
  owners : ∀ key id, acc.tupleOwners.get key = some id ↔
    ∃ r ∈ records, r.id = id ∧ ∃ e ∈ r.endpoints, networkEndpointKey e = key

/-- Records of one target agree, and no endpoint is of two targets. -/
structure Consistent (records : List EndpointRecord) : Prop where
  agree : ∀ r ∈ records, ∀ r' ∈ records, r.id = r'.id →
    r.ready = r'.ready ∧ r.serving = r'.serving ∧ r.terminating = r'.terminating ∧ r.zone = r'.zone
  claims : ∀ r ∈ records, ∀ r' ∈ records, ∀ e ∈ r.endpoints, e ∈ r'.endpoints → r.id = r'.id

theorem gathered_nil : Gathered [] ⟨.empty, .empty⟩ where
  present := by simp
  known := by simp
  endpoints := by simp
  owners := by simp

section Gather

variable {binding : Binding} {records : List EndpointRecord} {acc acc' : Aggregates}
  {r : EndpointRecord}

theorem recordMetadata_valid {id : Bytes} (hid : validOpaqueIdentifier id = true)
    (htype : validExactText binding.addressType = true) :
    ∀ e ∈ (recordMetadata binding id).entries,
      validExactText e.1 = true ∧ validExactText e.2 = true := by
  intro e he
  simp only [recordMetadata, TextMap.mem_put_iff, TextMap.empty, List.not_mem_nil, false_and,
    or_false] at he
  have hkeys : validExactText metadataAddressType = true
      ∧ validExactText metadataTargetRefUID = true := by decide +kernel
  rcases he with rfl | ⟨rfl, -⟩
  · exact ⟨hkeys.1, htype⟩
  · exact ⟨hkeys.2, validExactText_of_opaqueIdentifier hid⟩

theorem agrees_iff {a : AggregateInstance} (hr : r.Normalized binding)
    (ha : a.metadata = recordMetadata binding r.id) : a.agrees r = true ↔ a.Agrees r := by
  have hmetadata : equalStringMaps a.metadata r.metadata = true ↔ a.metadata = r.metadata := by
    refine equalStringMaps_iff fun e he hnil => ?_
    rw [ha] at he
    have hvalue := (recordMetadata_valid hr.id hr.addressType e he).2
    rw [hnil] at hvalue
    cases hvalue
  simp only [AggregateInstance.agrees, Bool.and_eq_true, decide_eq_true_eq, hmetadata]
  exact ⟨fun ⟨⟨⟨⟨h₁, h₂⟩, h₃⟩, h₄⟩, h₅⟩ => ⟨h₁, h₂, h₃, h₄, h₅⟩,
    fun h => ⟨⟨⟨⟨h.ready, h.serving⟩, h.terminating⟩, h.zone⟩, h.metadata⟩⟩

/-- The endpoints of one record are claimed together. -/
theorem foldlM_claimEndpoint (id : Bytes) (es : List NetworkEndpoint) (owners : TextMap Bytes)
    (endpoints : TextMap NetworkEndpoint) :
    es.foldlM (claimEndpoint id) (owners, endpoints) =
      if ∀ e ∈ es, ∀ owner, owners.get (networkEndpointKey e) = some owner → owner = id then
        .ok (es.foldl (fun m e => m.put (networkEndpointKey e) id) owners,
          es.foldl (fun m e => m.put (networkEndpointKey e) e) endpoints)
      else .error invalidInput := by
  induction es generalizing owners endpoints with
  | nil => simp; rfl
  | cons e es ih =>
      rw [List.foldlM_cons]
      by_cases hfree : ∀ owner, owners.get (networkEndpointKey e) = some owner → owner = id
      · have hclaim : claimEndpoint id (owners, endpoints) e =
            .ok (owners.put (networkEndpointKey e) id, endpoints.put (networkEndpointKey e) e) := by
          unfold claimEndpoint
          refine check_bind_ok_iff.mpr ⟨require_ok_iff.mpr ?_, rfl⟩
          rw [optionAll_iff]
          exact fun owner howner => decide_eq_true (hfree owner howner)
        -- what this one has claimed does not stand in the way of the others
        have hothers : ∀ e', (∀ owner, (owners.put (networkEndpointKey e) id).get
              (networkEndpointKey e') = some owner → owner = id) ↔
            ∀ owner, owners.get (networkEndpointKey e') = some owner → owner = id := by
          intro e'
          by_cases hkey : networkEndpointKey e' = networkEndpointKey e
          · rw [hkey, TextMap.get_put_self]
            exact iff_of_true (fun owner h => (Option.some.inj h).symm) hfree
          · rw [TextMap.get_put_of_ne hkey]
        rw [hclaim, ok_bind, ih]
        simp only [hothers, List.forall_mem_cons, List.foldl_cons]
        by_cases hrest : ∀ e ∈ es, ∀ owner, owners.get (networkEndpointKey e) = some owner →
            owner = id
        · rw [if_pos hrest, if_pos ⟨hfree, hrest⟩]
        · rw [if_neg hrest, if_neg fun h => hrest h.2]
      · have hclaim : claimEndpoint id (owners, endpoints) e = .error invalidInput := by
          rw [claimEndpoint, require_of_not]
          · rfl
          · exact fun hall => hfree fun owner howner =>
              of_decide_eq_true (optionAll_iff.mp hall owner howner)
        rw [hclaim, if_neg fun h => hfree (List.forall_mem_cons.mp h).1]
        rfl

/-- What a record is merged into. -/
theorem Gathered.aggregateFor (h : Gathered records acc)
    (hrecords : ∀ r' ∈ records, r'.Normalized binding) (hr : r.Normalized binding)
    {a : AggregateInstance} (ha : acc.aggregateFor r = .ok a) :
    a.id = r.id ∧ a.Agrees r ∧ (∀ r' ∈ records, r'.id = r.id → a.Agrees r')
      ∧ ∀ key e, a.endpoints.get key = some e ↔
        networkEndpointKey e = key ∧ ∃ r' ∈ records, r'.id = r.id ∧ e ∈ r'.endpoints := by
  unfold Aggregates.aggregateFor at ha
  cases hfound : acc.byID.get r.id with
  | none =>
      rw [hfound] at ha
      cases ha
      have hnone : ∀ r' ∈ records, r'.id ≠ r.id := by
        intro r' hr' hid
        obtain ⟨a, ha, -⟩ := h.present r' hr'
        rw [hid, hfound] at ha
        cases ha
      refine ⟨rfl, ⟨rfl, rfl, rfl, rfl, rfl⟩, fun r' hr' hid => absurd hid (hnone r' hr'), ?_⟩
      intro key e
      refine iff_of_false (by simp) ?_
      rintro ⟨-, r', hr', hid, -⟩
      exact hnone r' hr' hid
  | some a' =>
      rw [hfound] at ha
      obtain ⟨hagrees, ha⟩ := check_bind_ok_iff.mp ha
      cases ha
      obtain ⟨hid, r', hr', hid'⟩ := h.known _ _ hfound
      have hall : ∀ r' ∈ records, r'.id = r.id → a.Agrees r' := by
        intro r' hr' hid'
        obtain ⟨a'', ha'', hagrees'⟩ := h.present r' hr'
        rw [hid', hfound] at ha''
        cases ha''
        exact hagrees'
      have hmetadata : a.metadata = recordMetadata binding r.id := by
        rw [(hall r' hr' hid').metadata, (hrecords r' hr').metadata, hid']
      exact ⟨hid, (agrees_iff hr hmetadata).mp (require_ok_iff.mp hagrees), hall,
        h.endpoints _ _ hfound⟩

/-- The maps after one more record. -/
theorem addRecord_ok_iff :
    acc.addRecord r = .ok acc' ↔ ∃ a, acc.aggregateFor r = .ok a
      ∧ (∀ e ∈ r.endpoints, ∀ owner, acc.tupleOwners.get (networkEndpointKey e) = some owner →
        owner = r.id)
      ∧ acc' = ⟨acc.byID.put r.id { a with
          endpoints := r.endpoints.foldl (fun m e => m.put (networkEndpointKey e) e) a.endpoints },
        r.endpoints.foldl (fun m e => m.put (networkEndpointKey e) r.id) acc.tupleOwners⟩ := by
  unfold Aggregates.addRecord
  rw [bind_ok_iff]
  refine exists_congr fun a => and_congr_right fun _ => ?_
  rw [foldlM_claimEndpoint]
  split_ifs with hfree
  · rw [ok_bind]
    exact ⟨fun h => ⟨hfree, (Except.ok.inj h).symm⟩, fun h => h.2 ▸ rfl⟩
  · exact ⟨nofun, fun h => absurd h.1 hfree⟩

/-- A record that stops nothing is held with those before it. -/
theorem Gathered.addRecord (h : Gathered records acc)
    (hrecords : ∀ r' ∈ records, r'.Normalized binding) (hr : r.Normalized binding)
    (hadd : acc.addRecord r = .ok acc') : Gathered (records ++ [r]) acc' := by
  obtain ⟨a, ha, hfree, rfl⟩ := addRecord_ok_iff.mp hadd
  obtain ⟨hid, hagrees, hall, hendpoints⟩ := h.aggregateFor hrecords hr ha
  have hinj : ∀ e ∈ r.endpoints, ∀ r' ∈ records ++ [r], ∀ e' ∈ r'.endpoints,
      networkEndpointKey e' = networkEndpointKey e → e' = e := by
    intro e he r' hr' e' he' hkey
    refine networkEndpointKey_inj ?_ (hr.endpoint e he) hkey
    rcases List.mem_append.mp hr' with hr' | hr'
    · exact (hrecords r' hr').endpoint e' he'
    · rw [List.mem_singleton.mp hr'] at he'
      exact hr.endpoint e' he'
  constructor
  · intro r' hr'
    by_cases hsame : r'.id = r.id
    · rw [hsame]
      refine ⟨_, TextMap.get_put_self _ _ _, ?_⟩
      have hagrees' : a.Agrees r' := by
        rcases List.mem_append.mp hr' with hr' | hr'
        · exact hall r' hr' hsame
        · rw [List.mem_singleton.mp hr']
          exact hagrees
      exact ⟨hagrees'.ready, hagrees'.serving, hagrees'.terminating, hagrees'.zone,
        hagrees'.metadata⟩
    · rw [TextMap.get_put_of_ne hsame]
      rcases List.mem_append.mp hr' with hr' | hr'
      · exact h.present r' hr'
      · exact absurd (congrArg EndpointRecord.id (List.mem_singleton.mp hr')) hsame
  · intro id a' hget
    by_cases hsame : id = r.id
    · subst hsame
      rw [TextMap.get_put_self] at hget
      cases hget
      exact ⟨hid, r, by simp, rfl⟩
    · rw [TextMap.get_put_of_ne hsame] at hget
      obtain ⟨hid', r', hr', hr'id⟩ := h.known _ _ hget
      exact ⟨hid', r', List.mem_append_left _ hr', hr'id⟩
  · intro id a' hget key e
    by_cases hsame : id = r.id
    · subst hsame
      rw [TextMap.get_put_self] at hget
      cases hget
      dsimp only
      by_cases hclaimed : ∃ e' ∈ r.endpoints, networkEndpointKey e' = key
      · obtain ⟨e', he', rfl⟩ := hclaimed
        rw [TextMap.get_foldl_put_of_mem he' rfl fun e'' he'' hkey =>
          hinj e' he' r (by simp) e'' he'' hkey]
        constructor
        · rintro ⟨⟩
          exact ⟨rfl, r, by simp, rfl, he'⟩
        · rintro ⟨hkey, r', hr', -, he⟩
          rw [hinj e' he' r' hr' e he hkey]
      · simp only [not_exists, not_and] at hclaimed
        rw [TextMap.get_foldl_put_of_forall_ne hclaimed, hendpoints]
        refine and_congr_right fun hkey => ?_
        constructor
        · rintro ⟨r', hr', hid', he⟩
          exact ⟨r', List.mem_append_left _ hr', hid', he⟩
        · rintro ⟨r', hr', hid', he⟩
          rcases List.mem_append.mp hr' with hr' | hr'
          · exact ⟨r', hr', hid', he⟩
          · rw [List.mem_singleton.mp hr'] at he
            exact absurd hkey (hclaimed e he)
    · rw [TextMap.get_put_of_ne hsame] at hget
      rw [h.endpoints _ _ hget]
      refine and_congr_right fun _ => ?_
      simp only [List.mem_append, List.mem_singleton, or_and_right, exists_or, exists_eq_left,
        Ne.symm hsame, false_and, or_false]
  · intro key id
    by_cases hclaimed : ∃ e' ∈ r.endpoints, networkEndpointKey e' = key
    · obtain ⟨e', he', rfl⟩ := hclaimed
      rw [TextMap.get_foldl_put_of_mem he' rfl fun _ _ _ => rfl]
      constructor
      · rintro ⟨⟩
        exact ⟨r, by simp, rfl, e', he', rfl⟩
      · rintro ⟨r', hr', rfl, e, he, hkey⟩
        rcases List.mem_append.mp hr' with hmem | hmem
        · rw [hfree e' he' r'.id ((h.owners _ _).mpr ⟨r', hmem, rfl, e, he, hkey⟩)]
        · rw [List.mem_singleton.mp hmem]
    · simp only [not_exists, not_and] at hclaimed
      rw [TextMap.get_foldl_put_of_forall_ne hclaimed, h.owners]
      constructor
      · rintro ⟨r', hr', hid', he⟩
        exact ⟨r', List.mem_append_left _ hr', hid', he⟩
      · rintro ⟨r', hr', hid', e, he, hkey⟩
        rcases List.mem_append.mp hr' with hr' | hr'
        · exact ⟨r', hr', hid', e, he, hkey⟩
        · rw [List.mem_singleton.mp hr'] at he
          exact absurd hkey (hclaimed e he)

theorem Gathered.consistent (h : Gathered records acc) : Consistent records where
  agree := by
    intro r hr r' hr' hid
    obtain ⟨a, ha, hagrees⟩ := h.present r hr
    obtain ⟨a', ha', hagrees'⟩ := h.present r' hr'
    rw [hid, ha'] at ha
    cases ha
    exact ⟨hagrees.ready.symm.trans hagrees'.ready, hagrees.serving.symm.trans hagrees'.serving,
      hagrees.terminating.symm.trans hagrees'.terminating, hagrees.zone.symm.trans hagrees'.zone⟩
  claims := by
    intro r hr r' hr' e he he'
    have howner := (h.owners (networkEndpointKey e) r.id).mpr ⟨r, hr, rfl, e, he, rfl⟩
    rw [(h.owners _ r'.id).mpr ⟨r', hr', rfl, e, he', rfl⟩] at howner
    exact (Option.some.inj howner).symm

/-- Nothing stands in the way of a record that is consistent with those
before it. -/
theorem Gathered.exists_addRecord (h : Gathered records acc)
    (hrecords : ∀ r' ∈ records, r'.Normalized binding) (hr : r.Normalized binding)
    (hconsistent : Consistent (records ++ [r])) : ∃ acc', acc.addRecord r = .ok acc' := by
  have hlast : r ∈ records ++ [r] := by simp
  have hfor : ∃ a, acc.aggregateFor r = .ok a := by
    unfold Aggregates.aggregateFor
    cases hfound : acc.byID.get r.id with
    | none => exact ⟨_, rfl⟩
    | some a =>
        obtain ⟨-, r', hr', hid⟩ := h.known _ _ hfound
        obtain ⟨a', ha', hagrees⟩ := h.present r' hr'
        rw [hid, hfound] at ha'
        cases ha'
        obtain ⟨hready, hserving, hterminating, hzone⟩ :=
          hconsistent.agree r' (List.mem_append_left _ hr') r hlast hid
        have hmetadata : a.metadata = recordMetadata binding r.id := by
          rw [hagrees.metadata, (hrecords r' hr').metadata, hid]
        have hagrees' : a.Agrees r := ⟨hagrees.ready.trans hready, hagrees.serving.trans hserving,
          hagrees.terminating.trans hterminating, hagrees.zone.trans hzone,
          hmetadata.trans hr.metadata.symm⟩
        exact ⟨a, check_bind_ok_iff.mpr
          ⟨require_ok_iff.mpr ((agrees_iff hr hmetadata).mpr hagrees'), rfl⟩⟩
  obtain ⟨a, ha⟩ := hfor
  refine ⟨_, addRecord_ok_iff.mpr ⟨a, ha, fun e he owner howner => ?_, rfl⟩⟩
  obtain ⟨r', hr', rfl, e', he', hkey⟩ := (h.owners _ _).mp howner
  rw [networkEndpointKey_inj ((hrecords r' hr').endpoint e' he') (hr.endpoint e he) hkey] at he'
  exact hconsistent.claims r' (List.mem_append_left _ hr') r hlast e he' he

theorem Consistent.of_subset {records' : List EndpointRecord} (h : Consistent records')
    (hsubset : records ⊆ records') : Consistent records :=
  ⟨fun r hr r' hr' => h.agree r (hsubset hr) r' (hsubset hr'),
    fun r hr r' hr' => h.claims r (hsubset hr) r' (hsubset hr')⟩

/-- The maps hold all records. -/
theorem gather_gathered (hrecords : ∀ r ∈ records, r.Normalized binding)
    (h : gather records = .ok acc) : Gathered records acc := by
  induction records using List.reverseRecOn generalizing acc with
  | nil =>
      cases h
      exact gathered_nil
  | append_singleton records r ih =>
      unfold gather at h
      rw [List.foldlM_append] at h
      obtain ⟨acc₁, hgather, h⟩ := bind_ok_iff.mp h
      rw [List.foldlM_cons] at h
      obtain ⟨acc₂, hadd, hdone⟩ := bind_ok_iff.mp h
      cases hdone
      have hbefore : ∀ r' ∈ records, r'.Normalized binding := fun r' hr' =>
        hrecords r' (List.mem_append_left _ hr')
      exact (ih hbefore hgather).addRecord hbefore (hrecords r (by simp)) hadd

theorem exists_gather_iff (hrecords : ∀ r ∈ records, r.Normalized binding) :
    (∃ acc, gather records = .ok acc) ↔ Consistent records := by
  refine ⟨fun ⟨acc, h⟩ => (gather_gathered hrecords h).consistent, fun hconsistent => ?_⟩
  induction records using List.reverseRecOn with
  | nil => exact ⟨_, rfl⟩
  | append_singleton records r ih =>
      have hbefore : ∀ r' ∈ records, r'.Normalized binding := fun r' hr' =>
        hrecords r' (List.mem_append_left _ hr')
      obtain ⟨acc, hgather⟩ := ih hbefore (hconsistent.of_subset fun _ => List.mem_append_left _)
      obtain ⟨acc', hadd⟩ := (gather_gathered hbefore hgather).exists_addRecord hbefore
        (hrecords r (by simp)) hconsistent
      refine ⟨acc', ?_⟩
      unfold gather at hgather ⊢
      rw [List.foldlM_append, hgather, ok_bind, List.foldlM_cons, hadd]
      rfl

/-- There is one error only. -/
theorem gather_error {err : OutcomeError} (h : gather records = .error err) :
    err = invalidInput := by
  unfold gather at h
  generalize (⟨.empty, .empty⟩ : Aggregates) = acc at h
  induction records generalizing acc with
  | nil => cases h
  | cons r records ih =>
      rw [List.foldlM_cons] at h
      cases hadd : acc.addRecord r with
      | ok acc' =>
          rw [hadd] at h
          exact ih acc' h
      | error e =>
          rw [hadd] at h
          cases h
          unfold Aggregates.addRecord at hadd
          cases hfor : acc.aggregateFor r with
          | ok a =>
              rw [hfor, ok_bind, foldlM_claimEndpoint] at hadd
              split_ifs at hadd
              · cases hadd
              · cases hadd
                rfl
          | error e' =>
              rw [hfor] at hadd
              cases hadd
              unfold Aggregates.aggregateFor at hfor
              split at hfor
              · cases hfor
              · unfold require at hfor
                split_ifs at hfor
                · cases hfor
                · cases hfor
                  rfl

end Gather

/-! ## The instances -/

/-- The instance of the target of this record. -/
structure Merges (records : List EndpointRecord) (r : EndpointRecord) (i : Instance) : Prop where
  id : i.id = r.id
  ready : i.ready = r.ready
  serving : i.serving = r.serving
  terminating : i.terminating = r.terminating
  state : i.state = deriveLifecycleState r.ready r.serving r.terminating
  zone : i.zone = r.zone
  weight : i.weight = none
  metadata : i.metadata = r.metadata
  inOrder : InOrder NetworkEndpoint.sortKey i.endpoints
  endpoints : ∀ e, e ∈ i.endpoints ↔ ∃ r' ∈ records, r'.id = r.id ∧ e ∈ r'.endpoints

def AggregateInstance.built (a : AggregateInstance) : Instance :=
  ⟨a.id, sortBy NetworkEndpoint.sortKey (a.endpoints.entries.map Prod.snd), a.ready, a.serving,
    a.terminating, deriveLifecycleState a.ready a.serving a.terminating, a.zone, none, a.metadata⟩

section Instances

variable {binding : Binding} {records : List EndpointRecord} {acc : Aggregates}

variable {id : Bytes} {a : AggregateInstance} {r : EndpointRecord}

theorem Gathered.mem_endpoints (h : Gathered records acc) (ha : acc.byID.get id = some a)
    {e : NetworkEndpoint} :
    e ∈ a.endpoints.entries.map Prod.snd ↔ ∃ r ∈ records, r.id = id ∧ e ∈ r.endpoints := by
  rw [List.mem_map]
  constructor
  · rintro ⟨⟨key, e⟩, hmem, rfl⟩
    exact ((h.endpoints id a ha key e).mp (TextMap.get_eq_some_iff.mpr hmem)).2
  · intro hrecord
    exact ⟨(networkEndpointKey e, e),
      TextMap.get_eq_some_iff.mp ((h.endpoints id a ha _ e).mpr ⟨rfl, hrecord⟩), rfl⟩

/-- Different entries have different endpoints, as the key is the endpoint's. -/
theorem Gathered.nodup_endpoints (h : Gathered records acc) (ha : acc.byID.get id = some a) :
    (a.endpoints.entries.map Prod.snd).Nodup := by
  refine a.endpoints.nodup_keys.of_map.map_on fun x hx y hy heq => ?_
  have hkey : ∀ z ∈ a.endpoints.entries, networkEndpointKey z.2 = z.1 := fun z hz =>
    ((h.endpoints id a ha z.1 z.2).mp (TextMap.get_eq_some_iff.mpr hz)).1
  exact Prod.ext ((hkey x hx).symm.trans ((congrArg networkEndpointKey heq).trans (hkey y hy))) heq

theorem nodup_sortKey {es : List NetworkEndpoint} (h : es.Nodup) :
    (es.map NetworkEndpoint.sortKey).Nodup :=
  (List.nodup_map_iff NetworkEndpoint.sortKey_injective).mpr h

theorem Gathered.merges (h : Gathered records acc) (hr : r ∈ records)
    (ha : acc.byID.get r.id = some a) : Merges records r a.built := by
  obtain ⟨a', ha', hagrees⟩ := h.present r hr
  rw [ha, Option.some.injEq] at ha'
  subst ha'
  refine ⟨(h.known _ _ ha).1, hagrees.ready, hagrees.serving, hagrees.terminating, ?_, hagrees.zone,
    rfl, hagrees.metadata, inOrder_sortBy (nodup_sortKey (h.nodup_endpoints ha)), fun e => ?_⟩
  · rw [← hagrees.ready, ← hagrees.serving, ← hagrees.terminating]
    rfl
  · exact mem_sortBy.trans (h.mem_endpoints ha)

/-- What is merged is told by the records. -/
theorem Merges.unique {r' : EndpointRecord} {i i' : Instance} (h : Merges records r i)
    (h' : Merges records r' i') (hconsistent : Consistent records)
    (hrecords : ∀ r ∈ records, r.Normalized binding) (hr : r ∈ records) (hr' : r' ∈ records)
    (hid : r.id = r'.id) : i = i' := by
  obtain ⟨hready, hserving, hterminating, hzone⟩ := hconsistent.agree r hr r' hr' hid
  have hendpoints : i.endpoints = i'.endpoints :=
    h.inOrder.ext h'.inOrder fun e => by rw [h.endpoints, h'.endpoints, hid]
  have hstate := h.state
  rw [hready, hserving, hterminating, ← h'.state] at hstate
  have hmetadata : i.metadata = i'.metadata := by
    rw [h.metadata, h'.metadata, (hrecords r hr).metadata, (hrecords r' hr').metadata, hid]
  have hidentity := h.id.trans (hid.trans h'.id.symm)
  have hready' := h.ready.trans (hready.trans h'.ready.symm)
  have hserving' := h.serving.trans (hserving.trans h'.serving.symm)
  have hterminating' := h.terminating.trans (hterminating.trans h'.terminating.symm)
  have hzone' := h.zone.trans (hzone.trans h'.zone.symm)
  have hweight := h.weight.trans h'.weight.symm
  cases i
  cases i'
  simp_all

theorem Gathered.valid_built (h : Gathered records acc)
    (hrecords : ∀ r ∈ records, r.Normalized binding) (hr : r ∈ records)
    (ha : acc.byID.get r.id = some a) : a.built.Valid := by
  have hmerges := h.merges hr ha
  have hnormalized := hrecords r hr
  refine ⟨?_, ?_, fun e he => ?_, hmerges.inOrder, rfl, fun zone hzone => ?_, fun e he => ?_⟩
  · rw [hmerges.id]
    exact validExactText_of_opaqueIdentifier hnormalized.id
  · obtain ⟨e, he⟩ := List.exists_mem_of_ne_nil _ hnormalized.nonEmpty
    exact List.ne_nil_of_mem ((hmerges.endpoints e).mpr ⟨r, hr, rfl, he⟩)
  · obtain ⟨r', hr', -, he⟩ := (hmerges.endpoints e).mp he
    exact (hrecords r' hr').endpoint e he
  · rw [hmerges.zone] at hzone
    exact validExactText_of_opaqueIdentifier (hnormalized.zone zone hzone)
  · rw [hmerges.metadata, hnormalized.metadata] at he
    exact recordMetadata_valid hnormalized.id hnormalized.addressType e he

/-- No validator refuses what was merged. -/
theorem Gathered.newInstance (h : Gathered records acc)
    (hrecords : ∀ r ∈ records, r.Normalized binding) (order : RangeOrder)
    (ha : acc.byID.get id = some a) : newInstance order a = .ok a.built := by
  obtain ⟨-, r, hr, rfl⟩ := h.known _ _ ha
  have hperm := (order.endpoints_perm a.endpoints.entries).map Prod.snd
  have hnodup := h.nodup_endpoints ha
  refine Instance.new_ok_iff.mpr ⟨fun e he => ?_, hperm.nodup_iff.mpr hnodup,
    h.valid_built hrecords hr ha, ?_⟩
  · obtain ⟨r', hr', -, he⟩ := (h.mem_endpoints ha).mp (hperm.mem_iff.mp he)
    exact (hrecords r' hr').endpoint e he
  · rw [AggregateInstance.built, sortBy_congr hperm (nodup_sortKey (hperm.nodup_iff.mpr hnodup))]

end Instances

namespace TopologyState

section Spec

variable {binding : Binding} {s : TopologyState}

/-- Every record comes from a slice of the binding. -/
def Normalized (binding : Binding) (s : TopologyState) : Prop :=
  ∀ r ∈ s.records, r.Normalized binding

theorem mem_ranged_iff (s : TopologyState) (order : RangeOrder) {r : EndpointRecord} :
    r ∈ ((order.slices s.slices.entries).flatMap fun slice => slice.2.endpoints) ↔
      r ∈ s.records :=
  ((order.slices_perm _).flatMap_right _).mem_iff

theorem consistent_ranged_iff (s : TopologyState) (order : RangeOrder) :
    Consistent ((order.slices s.slices.entries).flatMap fun slice => slice.2.endpoints) ↔
      Consistent s.records :=
  ⟨fun h => h.of_subset fun _ => (s.mem_ranged_iff order).mpr,
    fun h => h.of_subset fun _ => (s.mem_ranged_iff order).mp⟩

theorem Merges.congr_records {records records' : List EndpointRecord}
    (h : ∀ r, r ∈ records ↔ r ∈ records') {r : EndpointRecord} {i : Instance}
    (hmerges : Merges records r i) : Merges records' r i :=
  { hmerges with endpoints := fun e => by rw [hmerges.endpoints]; simp only [h] }

/-- What the instances are, in whatever order the maps are ranged over. -/
theorem instances_ok (hs : s.Normalized binding) (hconsistent : Consistent s.records)
    (order : RangeOrder) :
    ∃ l, s.instances order = .ok l ∧ (s.servicePresent = false → l = [])
      ∧ InOrder idKey l ∧ (∀ i ∈ l, i.Valid)
      ∧ (s.servicePresent = true → ∀ i, i ∈ l ↔ ∃ r ∈ s.records, Merges s.records r i) := by
  have hnormalized : ∀ r ∈ (order.slices s.slices.entries).flatMap fun slice => slice.2.endpoints,
      r.Normalized binding := fun r hr => hs r ((s.mem_ranged_iff order).mp hr)
  obtain ⟨acc, hacc⟩ := (exists_gather_iff hnormalized).mpr
    ((s.consistent_ranged_iff order).mpr hconsistent)
  have hgathered := gather_gathered hnormalized hacc
  unfold instances
  rw [hacc, ok_bind]
  cases hpresent : s.servicePresent with
  | false => exact ⟨[], rfl, fun _ => rfl, .nil, by simp, nofun⟩
  | true =>
      have hget : ∀ x ∈ order.aggregates acc.byID.entries, acc.byID.get x.1 = some x.2 :=
        fun x hx =>
        TextMap.get_eq_some_iff.mpr ((order.aggregates_perm _).mem_iff.mp hx)
      have hbuilt : (order.aggregates acc.byID.entries).mapM (fun a => newInstance order a.2) =
          .ok ((order.aggregates acc.byID.entries).map fun a => a.2.built) :=
        mapM_of_forall fun x hx => hgathered.newInstance hnormalized order (hget x hx)
      have hmem : ∀ i, i ∈ sortBy idKey ((order.aggregates acc.byID.entries).map
          fun a => a.2.built) ↔ ∃ x ∈ order.aggregates acc.byID.entries, x.2.built = i := fun i =>
        mem_sortBy.trans List.mem_map
      refine ⟨_, by rw [if_pos rfl, hbuilt]; rfl, nofun, inOrder_sortBy ?_, ?_, fun _ i => ?_⟩
      · have hids : ∀ x ∈ order.aggregates acc.byID.entries,
            (idKey ∘ fun a : Bytes × AggregateInstance => a.2.built) x = byteKey x.1 := fun x hx =>
          congrArg byteKey (hgathered.known _ _ (hget x hx)).1
        rw [List.map_map, List.map_congr_left hids]
        exact ((order.aggregates_perm _).map _).nodup_iff.mpr acc.byID.inOrder.nodup
      · intro i hi
        obtain ⟨x, hx, rfl⟩ := (hmem i).mp hi
        obtain ⟨-, r, hr, hid⟩ := hgathered.known _ _ (hget x hx)
        exact hgathered.valid_built hnormalized hr (hid ▸ hget x hx)
      · rw [hmem]
        constructor
        · rintro ⟨x, hx, rfl⟩
          obtain ⟨-, r, hr, hid⟩ := hgathered.known _ _ (hget x hx)
          exact ⟨r, (s.mem_ranged_iff order).mp hr,
            Merges.congr_records (fun _ => s.mem_ranged_iff order)
              (hgathered.merges hr (hid ▸ hget x hx))⟩
        · rintro ⟨r, hr, hmerges⟩
          have hr' := (s.mem_ranged_iff order).mpr hr
          obtain ⟨a, ha, -⟩ := hgathered.present r hr'
          refine ⟨(r.id, a), (order.aggregates_perm _).mem_iff.mpr (TextMap.get_eq_some_iff.mp ha),
            ?_⟩
          have hmerges' := Merges.congr_records (fun _ => s.mem_ranged_iff order)
            (hgathered.merges hr' ha)
          exact hmerges'.unique hmerges hconsistent hs hr hr rfl

theorem instances_error (hs : s.Normalized binding) (hinconsistent : ¬Consistent s.records)
    (order : RangeOrder) : s.instances order = .error invalidInput := by
  have hnormalized : ∀ r ∈ (order.slices s.slices.entries).flatMap fun slice => slice.2.endpoints,
      r.Normalized binding := fun r hr => hs r ((s.mem_ranged_iff order).mp hr)
  unfold instances
  cases hgather : gather ((order.slices s.slices.entries).flatMap fun slice =>
    slice.2.endpoints) with
  | ok acc =>
      have hconsistent := (exists_gather_iff hnormalized).mp ⟨acc, hgather⟩
      exact absurd ((s.consistent_ranged_iff order).mp hconsistent) hinconsistent
  | error err =>
      rw [gather_error hgather]
      rfl

theorem instances_congr (hs : s.Normalized binding) (order order' : RangeOrder) :
    s.instances order = s.instances order' := by
  by_cases hconsistent : Consistent s.records
  · obtain ⟨l, hl, habsent, hinOrder, -, hmem⟩ := instances_ok hs hconsistent order
    obtain ⟨l', hl', habsent', hinOrder', -, hmem'⟩ := instances_ok hs hconsistent order'
    rw [hl, hl']
    cases hpresent : s.servicePresent with
    | false => rw [habsent hpresent, habsent' hpresent]
    | true =>
        rw [hinOrder.ext hinOrder' fun i => by rw [hmem hpresent, hmem' hpresent]]
  · rw [instances_error hs hconsistent, instances_error hs hconsistent]

/-- A snapshot is refused only for what the records say. -/
theorem snapshot_ok [UnicodeCase] (hs : s.Normalized binding) (hconsistent : Consistent s.records)
    (order : RangeOrder) {target : ReleaseTarget} (htarget : target.validate = .ok ())
    (hservice : validResourceVersion s.serviceResourceVersion = true)
    (hendpoint : validResourceVersion s.endpointResourceVersion = true) (localOrder : UInt64) :
    ∃ l, s.instances order = .ok l ∧ s.snapshot order target localOrder =
      .ok ⟨target, ⟨[s.serviceResourceVersion, s.endpointResourceVersion], localOrder⟩,
        if s.servicePresent then if 0 < l.length then .populated else .empty else .missing, l⟩ := by
  obtain ⟨l, hl, habsent, hinOrder, hvalid, -⟩ := instances_ok hs hconsistent order
  refine ⟨l, hl, ?_⟩
  have hrevision : Revision.new ⟨[s.serviceResourceVersion, s.endpointResourceVersion],
      localOrder⟩ =
      .ok ⟨[s.serviceResourceVersion, s.endpointResourceVersion], localOrder⟩ := by
    refine check_bind_ok_iff.mpr ⟨Revision.validate_ok_iff.mpr ⟨by simp, ?_⟩, rfl⟩
    simp [validExactText_of_opaqueIdentifier hservice, validExactText_of_opaqueIdentifier hendpoint]
  unfold snapshot
  rw [hl, ok_bind, hrevision, ok_bind]
  refine InstanceSnapshot.new_ok_iff.mpr ⟨hvalid, hinOrder.nodup,
    ⟨htarget, ?_, hvalid, hinOrder, ?_⟩, ?_⟩
  · exact Revision.validate_ok_iff.mp (check_bind_ok_iff.mp hrevision).1
  · cases hpresent : s.servicePresent with
    | false => simp [habsent hpresent]
    | true => cases l <;> simp
  · rw [sortBy_eq_self hinOrder]

end Spec

/-- **Aggregation.** What `instances` makes of the slices of a binding. -/
theorem instances_spec [UnicodeCase] {binding : Binding} {s : TopologyState}
    (hslices : ∀ slice ∈ s.slices.entries, ∃ wire requireResourceVersion,
      normalizeEndpointSlice wire binding requireResourceVersion = .ok slice.2)
        (order : RangeOrder) :
    (∀ order', s.instances order' = s.instances order)
      ∧ ((∃ l, s.instances order = .ok l) ↔
        (∀ r ∈ s.records, ∀ r' ∈ s.records, r.id = r'.id → r.ready = r'.ready
            ∧ r.serving = r'.serving ∧ r.terminating = r'.terminating ∧ r.zone = r'.zone)
          ∧ ∀ r ∈ s.records, ∀ r' ∈ s.records, ∀ e ∈ r.endpoints, e ∈ r'.endpoints → r.id = r'.id)
      ∧ ∀ l, s.instances order = .ok l →
        (s.servicePresent = false → l = [])
          ∧ (s.servicePresent = true → InOrder idKey l
            ∧ (∀ id, (∃ i ∈ l, i.id = id) ↔ ∃ r ∈ s.records, r.id = id)
            ∧ ∀ i ∈ l, i.endpoints.Nodup
              ∧ (∀ e, e ∈ i.endpoints ↔ ∃ r ∈ s.records, r.id = i.id ∧ e ∈ r.endpoints)
              ∧ ∀ r ∈ s.records, r.id = i.id → i.ready = r.ready ∧ i.serving = r.serving
                ∧ i.terminating = r.terminating ∧ i.zone = r.zone)
          ∧ ∀ target localOrder, target.validate = .ok () →
            validResourceVersion s.serviceResourceVersion = true →
            validResourceVersion s.endpointResourceVersion = true →
              ∃ snapshot, s.snapshot order target localOrder = .ok snapshot
                ∧ snapshot.instances = l := by
  have hs : s.Normalized binding := by
    intro r hr
    obtain ⟨slice, hslice, hr⟩ := List.mem_flatMap.mp hr
    obtain ⟨wire, requireResourceVersion, hnormalize⟩ := hslices slice hslice
    exact normalizeEndpointSlice_normalized hnormalize r hr
  have hconsistent : (∃ l, s.instances order = .ok l) → Consistent s.records := by
    rintro ⟨l, hl⟩
    by_contra hinconsistent
    rw [instances_error hs hinconsistent] at hl
    cases hl
  refine ⟨fun order' => instances_congr hs order' order, ⟨fun h => ?_, fun h => ?_⟩, fun l hl => ?_⟩
  · exact ⟨(hconsistent h).agree, (hconsistent h).claims⟩
  · obtain ⟨l, hl, -⟩ := instances_ok hs ⟨h.1, h.2⟩ order
    exact ⟨l, hl⟩
  · have hcons := hconsistent ⟨l, hl⟩
    obtain ⟨l', hl', habsent, hinOrder, -, hmem⟩ := instances_ok hs hcons order
    rw [hl] at hl'
    cases hl'
    refine ⟨habsent, fun hpresent => ⟨hinOrder, fun id => ?_, fun i hi => ?_⟩, ?_⟩
    · constructor
      · rintro ⟨i, hi, rfl⟩
        obtain ⟨r, hr, hmerges⟩ := (hmem hpresent i).mp hi
        exact ⟨r, hr, hmerges.id.symm⟩
      · rintro ⟨r, hr, rfl⟩
        obtain ⟨acc, hacc⟩ := (exists_gather_iff hs).mpr hcons
        have hgathered := gather_gathered hs hacc
        obtain ⟨a, ha, -⟩ := hgathered.present r hr
        have hmerges := hgathered.merges hr ha
        exact ⟨a.built, (hmem hpresent _).mpr ⟨r, hr, hmerges⟩, hmerges.id⟩
    · obtain ⟨r, hr, hmerges⟩ := (hmem hpresent i).mp hi
      refine ⟨hmerges.inOrder.nodup.of_map, fun e => ?_, fun r' hr' hid => ?_⟩
      · rw [hmerges.endpoints, hmerges.id]
      · obtain ⟨hready, hserving, hterminating, hzone⟩ :=
          hcons.agree r hr r' hr' (hmerges.id.symm.trans hid.symm)
        exact ⟨hmerges.ready.trans hready, hmerges.serving.trans hserving,
          hmerges.terminating.trans hterminating, hmerges.zone.trans hzone⟩
    · intro target localOrder htarget hservice hendpoint
      obtain ⟨l', hl', hsnapshot⟩ :=
        snapshot_ok hs hcons order htarget hservice hendpoint localOrder
      rw [hl] at hl'
      cases hl'
      exact ⟨_, hsnapshot, rfl⟩

end TopologyState

/-! ## A target in two slices -/

namespace Sample

def binding : Binding :=
  ⟨weatherTarget, utf8 "ns", utf8 "svc", utf8 "u1", utf8 "m", .empty, .empty, addressTypeIPv4,
    utf8 "http", transportProtocolTCP, ⟨4096, 4096, 2, 2, 1⟩, utf8 "k1"⟩

def labels : List (String × String) :=
  [("kubernetes.io/service-name", "svc"), ("endpointslice.kubernetes.io/managed-by", "m"),
    ("registry.nekiro.dev/binding-version", "v1"), ("registry.nekiro.dev/release-target", "k1")]

/-- A slice with one address of the target `p1`. -/
def wireSlice (uid address : String) : WireEndpointSlice :=
  ⟨⟨"slice", "ns", uid, "7", labels, ⟨some [⟨"v1", "Service", "svc", "u1"⟩], []⟩⟩, some "IPv4",
    ⟨some [⟨some "http", some "TCP", some 80⟩], []⟩,
    ⟨some [⟨⟨some [address], []⟩, ⟨none, none, none⟩, some ⟨"p1"⟩, none⟩], []⟩⟩

def endpoint (address : String) : NetworkEndpoint :=
  ⟨addressTypeIPv4, utf8 address, utf8 "http", 80, transportProtocolTCP⟩

def sliceRecord (uid address : String) : SliceRecord :=
  ⟨utf8 uid, [⟨utf8 "p1", [endpoint address], true, true, false, none,
    recordMetadata binding (utf8 "p1")⟩]⟩

def state : TopologyState :=
  ⟨true, utf8 "1", utf8 "7", (TextMap.empty.put (utf8 "a") (sliceRecord "a" "10.0.0.1")).put
    (utf8 "b") (sliceRecord "b" "10.0.0.2")⟩

/-- Every map in the order of its keys. -/
def sorted : RangeOrder :=
  ⟨fun l => l, fun l => l, fun l => l, fun _ => .refl _, fun _ => .refl _, fun _ => .refl _⟩

theorem normalize_wireSlice :
    normalizeEndpointSlice (wireSlice "a" "10.0.0.1") binding true =
      .ok (sliceRecord "a" "10.0.0.1")
      ∧ normalizeEndpointSlice (wireSlice "b" "10.0.0.2") binding true =
        .ok (sliceRecord "b" "10.0.0.2") := by
  decide +kernel

theorem instances_of_two_slices :
    let _ : UnicodeCase := ⟨fun r => r⟩
    ∃ l, state.instances sorted = .ok l ∧ ∃ i ∈ l, i.id = utf8 "p1"
      ∧ endpoint "10.0.0.1" ∈ i.endpoints ∧ endpoint "10.0.0.2" ∈ i.endpoints := by
  intro _
  have hentries : state.slices.entries = [(utf8 "a", sliceRecord "a" "10.0.0.1"),
      (utf8 "b", sliceRecord "b" "10.0.0.2")] := by decide +kernel
  have hspec := state.instances_spec (by
    rw [hentries]
    intro slice hslice
    simp only [List.mem_cons, List.not_mem_nil, or_false] at hslice
    rcases hslice with rfl | rfl
    · exact ⟨_, _, normalize_wireSlice.1⟩
    · exact ⟨_, _, normalize_wireSlice.2⟩) sorted
  have hrecords : state.records = (sliceRecord "a" "10.0.0.1").endpoints
      ++ (sliceRecord "b" "10.0.0.2").endpoints := by
    rw [TopologyState.records, hentries]
    rfl
  obtain ⟨l, hl⟩ := hspec.2.1.mpr (by rw [hrecords]; decide +kernel)
  obtain ⟨-, hpresent, -⟩ := hspec.2.2 l hl
  obtain ⟨-, hids, hinstances⟩ := hpresent rfl
  obtain ⟨i, hi, hid⟩ := (hids (utf8 "p1")).mpr (by rw [hrecords]; decide +kernel)
  obtain ⟨-, hendpoints, -⟩ := hinstances i hi
  refine ⟨l, hl, i, hi, hid, (hendpoints _).mpr ?_, (hendpoints _).mpr ?_⟩ <;>
    (rw [hid, hrecords]; decide +kernel)

end Sample

end Kubernetes

end Registry

end Nekiro
