import Nekiro.Hex
import Nekiro.JsonInterface
import Nekiro.Netip
import Nekiro.RegistryModel
import Nekiro.Sha256

/-!
# Topology deltas

A provider compares the snapshot that it has published with the next one
(`samePublicTopology`), takes the difference (`topologyDelta`) and builds a
change from it. The difference is exact: applied to the instances of the
previous snapshot it gives those of the next (`applyDelta_topologyDelta`).
If it is empty the instances are the same (`eq_of_topologyDelta_nil`), so a
snapshot that differs at all differs in its state, and neither snapshot can
be populated; that is why the change is never refused
(`kubernetesChange_accepted`). Nacos knows no missing target, so for its
snapshots an empty difference is no difference (`nacosChange_accepted`).

The deleted IDs come in the order in which the map of the previous
instances is ranged over, which is a parameter.
-/

namespace Nekiro

open Json Guard Strings

namespace Registry

/-! ## The difference of two snapshots -/

/-- The same function in both providers. -/
def samePublicTopology (left right : InstanceSnapshot) : Bool :=
  left.state = right.state && equalInstances left.instances right.instances

/-- The same function in both providers; `keys` are the IDs of the previous
instances as the map is ranged over. -/
def topologyDelta (previous next : InstanceSnapshot) (keys : List Bytes) :
    List Instance × List Bytes :=
  (next.instances.filter fun i =>
      match InstanceChange.instanceByID previous.instances i.id with
      | none => true
      | some prior => !prior.equal i,
    keys.filter fun id => (InstanceChange.instanceByID next.instances id).isNone)

/-- The instances without those that were deleted, and with the others in
the place of those of the same ID. -/
def applyDelta (instances : List Instance) (delta : List Instance × List Bytes) : List Instance :=
  sortBy idKey ((instances.filter fun i =>
    decide (i.id ∉ delta.2) && delta.1.all fun u => u.id ≠ i.id) ++ delta.1)

section Delta

variable [UnicodeCase] {p n : InstanceSnapshot} {keys : List Bytes}

omit [UnicodeCase] in
theorem InOrder.eq_of_id {instances : List Instance} (h : InOrder idKey instances) {i j : Instance}
    (hi : i ∈ instances) (hj : j ∈ instances) (hid : i.id = j.id) : i = j :=
  Table.eq_of_key h.nodup hi hj (congrArg byteKey hid)

theorem mem_upserts_iff (hp : p.Valid) {i : Instance} :
    i ∈ (topologyDelta p n keys).1 ↔ i ∈ n.instances ∧ i ∉ p.instances := by
  rw [topologyDelta, List.mem_filter]
  refine and_congr_right fun _ => ?_
  cases hfound : InstanceChange.instanceByID p.instances i.id with
  | none =>
      refine iff_of_true rfl fun hmem => ?_
      exact InstanceChange.instanceByID_eq_none_iff.mp hfound i hmem rfl
  | some prior =>
      obtain ⟨hprior, hid⟩ := (InstanceChange.instanceByID_eq_some_iff hp.inOrder).mp hfound
      simp only [Bool.not_eq_true', ← Bool.not_eq_true, (hp.instance_ prior hprior).equal_iff]
      exact ⟨fun hne hmem => hne (InOrder.eq_of_id hp.inOrder hprior hmem hid),
        fun hnot heq => hnot (heq ▸ hprior)⟩

omit [UnicodeCase] in
theorem mem_deleted_iff (hkeys : keys.Perm (p.instances.map Instance.id)) {id : Bytes} :
    id ∈ (topologyDelta p n keys).2 ↔
      id ∈ p.instances.map Instance.id ∧ id ∉ n.instances.map Instance.id := by
  rw [topologyDelta, List.mem_filter, hkeys.mem_iff, Option.isNone_iff_eq_none,
    InstanceChange.instanceByID_eq_none_iff]
  refine and_congr_right fun _ => ?_
  simp

theorem nodup_ids {s : InstanceSnapshot} (h : s.Valid) : (s.instances.map Instance.id).Nodup := by
  have hkeys := h.inOrder.nodup
  rw [show idKey = byteKey ∘ Instance.id from rfl, ← List.map_map] at hkeys
  exact hkeys.of_map

/-- The difference is exact. -/
theorem applyDelta_topologyDelta (hp : p.Valid) (hn : n.Valid)
    (hkeys : keys.Perm (p.instances.map Instance.id)) :
    applyDelta p.instances (topologyDelta p n keys) = n.instances := by
  have hmem : ∀ i, i ∈ (p.instances.filter fun i =>
        decide (i.id ∉ (topologyDelta p n keys).2)
          && (topologyDelta p n keys).1.all fun u => u.id ≠ i.id) ++ (topologyDelta p n keys).1
      ↔ i ∈ n.instances := by
    intro i
    rw [List.mem_append, List.mem_filter, Bool.and_eq_true, decide_eq_true_eq, List.all_eq_true,
      mem_deleted_iff hkeys, mem_upserts_iff hp]
    constructor
    · rintro (⟨hi, hkept, hother⟩ | ⟨hi, -⟩)
      · -- an instance of this ID is in the next snapshot, and it is this one
        have hid : i.id ∈ n.instances.map Instance.id := by
          by_contra hnot
          exact hkept ⟨List.mem_map_of_mem hi, hnot⟩
        obtain ⟨j, hj, hji⟩ := List.mem_map.mp hid
        by_cases hjp : j ∈ p.instances
        · rwa [← InOrder.eq_of_id hp.inOrder hjp hi hji]
        · have hne := hother j ((mem_upserts_iff hp).mpr ⟨hj, hjp⟩)
          exact absurd hji (of_decide_eq_true hne)
      · exact hi
    · intro hi
      by_cases hip : i ∈ p.instances
      · refine .inl ⟨hip, fun h => h.2 (List.mem_map_of_mem hi), fun u hu => ?_⟩
        obtain ⟨hun, hup⟩ := (mem_upserts_iff hp).mp hu
        refine decide_eq_true fun hid => hup ?_
        rwa [InOrder.eq_of_id hn.inOrder hun hi hid]
      · exact .inr ⟨hi, hip⟩
  have hnodup : (((p.instances.filter fun i => decide (i.id ∉ (topologyDelta p n keys).2)
      && (topologyDelta p n keys).1.all fun u => u.id ≠ i.id)
        ++ (topologyDelta p n keys).1).map idKey).Nodup := by
    rw [List.map_append, List.nodup_append]
    refine ⟨(hp.inOrder.sublist List.filter_sublist).nodup,
      (hn.inOrder.sublist List.filter_sublist).nodup, ?_⟩
    rintro _ hkept _ hupsert rfl
    obtain ⟨i, hi, rfl⟩ := List.mem_map.mp hkept
    obtain ⟨u, hu, hid⟩ := List.mem_map.mp hupsert
    rw [List.mem_filter, Bool.and_eq_true, List.all_eq_true] at hi
    exact of_decide_eq_true (hi.2.2 u hu) (byteKey_injective hid)
  rw [applyDelta]
  exact (inOrder_sortBy hnodup).ext hn.inOrder fun i => mem_sortBy.trans (hmem i)

omit [UnicodeCase] in
/-- A change has the difference in order, which is the same difference. -/
theorem applyDelta_sortBy {instances upserts : List Instance} (h : InOrder idKey upserts)
    (deleted : List Bytes) :
    applyDelta instances (sortBy idKey upserts, sortBy byteKey deleted) =
      applyDelta instances (upserts, deleted) := by
  simp only [applyDelta, sortBy_eq_self h, mem_sortBy]

/-- Without a difference the instances are the same. -/
theorem eq_of_topologyDelta_nil (hp : p.Valid) (hn : n.Valid)
    (hkeys : keys.Perm (p.instances.map Instance.id)) (hupserts : (topologyDelta p n keys).1 = [])
    (hdeleted : (topologyDelta p n keys).2 = []) : p.instances = n.instances := by
  rw [← applyDelta_topologyDelta hp hn hkeys, applyDelta, hupserts, hdeleted]
  simp [sortBy_eq_self hp.inOrder]

theorem samePublicTopology_iff (hp : p.Valid) :
    samePublicTopology p n = true ↔ p.state = n.state ∧ p.instances = n.instances := by
  rw [samePublicTopology, Bool.and_eq_true, decide_eq_true_eq, equalInstances_iff hp.instance_]

end Delta

/-! ## The changes that the providers build -/

/-- The change of `emitCurrentStateLocked` in the Kubernetes provider. -/
def kubernetesChange (current next : InstanceSnapshot) (keys : List Bytes) : InstanceChange :=
  let delta := topologyDelta current next keys
  if delta.1 = [] ∧ delta.2 = [] then
    ⟨.stateChanged, next.revision, delta.1, delta.2, some current.state, next⟩
  else ⟨.instancesChanged, next.revision, delta.1, delta.2, none, next⟩

/-- The change of `accept` in the Nacos provider. -/
def nacosChange (current next : InstanceSnapshot) (keys : List Bytes) : InstanceChange :=
  let delta := topologyDelta current next keys
  ⟨.instancesChanged, next.revision, delta.1, delta.2, none, next⟩

section Accepted

variable [UnicodeCase] {p n : InstanceSnapshot} {keys : List Bytes}

/-- A change with this difference is refused for its kind only. -/
theorem new_of_topologyDelta (hp : p.Valid) (hn : n.Valid)
    (hkeys : keys.Perm (p.instances.map Instance.id)) (horder : n.revision.localOrder ≠ 0)
    {kind : InstanceChangeKind} {previousState : Option SnapshotState}
    (hkind : (⟨kind, n.revision, sortBy idKey (topologyDelta p n keys).1,
      sortBy byteKey (topologyDelta p n keys).2, previousState, n⟩ :
        InstanceChange).validateKind = .ok ()) :
    InstanceChange.new ⟨kind, n.revision, (topologyDelta p n keys).1, (topologyDelta p n keys).2,
      previousState, n⟩ =
      .ok ⟨kind, n.revision, sortBy idKey (topologyDelta p n keys).1,
        sortBy byteKey (topologyDelta p n keys).2, previousState, n⟩ := by
  have hupserts : InOrder idKey (topologyDelta p n keys).1 :=
    hn.inOrder.sublist List.filter_sublist
  have hdeleted : (topologyDelta p n keys).2.Nodup :=
    ((hkeys.nodup_iff.mpr (nodup_ids hp)).sublist List.filter_sublist)
  have hexact : ∀ id ∈ (topologyDelta p n keys).2, validExactText id = true := by
    intro id hid
    obtain ⟨i, hi, rfl⟩ := List.mem_map.mp ((mem_deleted_iff hkeys).mp hid).1
    exact (hp.instance_ i hi).id
  refine InstanceChange.new_ok_iff.mpr ⟨fun i hi => hn.instance_ i (List.mem_of_mem_filter hi),
    hupserts.nodup, hexact, hdeleted, ?_, rfl⟩
  refine ⟨horder, hn, rfl, inOrder_sortBy hupserts.nodup, fun i hi => ?_,
    inOrder_sortBy ((List.nodup_map_iff byteKey_injective).mpr hdeleted), fun id hid => ?_, hkind⟩
  · exact List.mem_of_mem_filter (mem_sortBy.mp hi)
  · have hid := mem_sortBy.mp hid
    refine ⟨hexact id hid, fun i hi heq => ?_⟩
    exact ((mem_deleted_iff hkeys).mp hid).2 (heq ▸ List.mem_map_of_mem hi)

omit [UnicodeCase] in
theorem instancesChanged_kind {upserts : List Instance} {deleted : List Bytes}
    (h : ¬(upserts = [] ∧ deleted = [])) :
    (⟨.instancesChanged, n.revision, sortBy idKey upserts, sortBy byteKey deleted, none, n⟩ :
      InstanceChange).validateKind = .ok () := by
  simp only [InstanceChange.validateKind, check_bind_ok_iff, require_ok_iff, sortBy_eq_nil_iff,
    and_true]
  exact h

/-- The Kubernetes provider builds no change that is refused. -/
theorem kubernetesChange_accepted (hp : p.Valid) (hn : n.Valid)
    (hkeys : keys.Perm (p.instances.map Instance.id)) (horder : n.revision.localOrder ≠ 0)
    (hdiffers : samePublicTopology p n = false) :
    ∃ c, InstanceChange.new (kubernetesChange p n keys) = .ok c := by
  by_cases hnil : (topologyDelta p n keys).1 = [] ∧ (topologyDelta p n keys).2 = []
  · have hsame := eq_of_topologyDelta_nil hp hn hkeys hnil.1 hnil.2
    have hstate : p.state ≠ n.state := by
      intro heq
      rw [(samePublicTopology_iff hp).mpr ⟨heq, hsame⟩] at hdiffers
      cases hdiffers
    -- the same instances make both snapshots populated, or none
    have hpopulated : p.state = .populated ↔ n.state = .populated := by
      rw [hp.state, hn.state, hsame]
    have hpNot : p.state ≠ .populated := fun h => hstate (h.trans (hpopulated.mp h).symm)
    have hnNot : n.state ≠ .populated := fun h => hpNot (hpopulated.mpr h)
    simp only [kubernetesChange, if_pos hnil]
    refine ⟨_, new_of_topologyDelta hp hn hkeys horder ?_⟩
    simp only [InstanceChange.validateKind, check_bind_ok_iff, require_ok_iff, sortBy_eq_nil_iff]
    exact ⟨⟨nofun, fun h => hstate (Option.some.inj h), fun h => hpNot (Option.some.inj h), hnNot⟩,
      hnil⟩
  · simp only [kubernetesChange, if_neg hnil]
    exact ⟨_, new_of_topologyDelta hp hn hkeys horder (instancesChanged_kind hnil)⟩

/-- The Nacos provider builds no change that is refused, as its snapshots
are never missing. -/
theorem nacosChange_accepted (hp : p.Valid) (hn : n.Valid)
    (hkeys : keys.Perm (p.instances.map Instance.id)) (horder : n.revision.localOrder ≠ 0)
    (hpState : p.state ≠ .missing) (hnState : n.state ≠ .missing)
    (hdiffers : samePublicTopology p n = false) :
    ∃ c, InstanceChange.new (nacosChange p n keys) = .ok c := by
  refine ⟨_, new_of_topologyDelta hp hn hkeys horder (instancesChanged_kind fun hnil => ?_)⟩
  have hsame := eq_of_topologyDelta_nil hp hn hkeys hnil.1 hnil.2
  have hpopulated : p.state = .populated ↔ n.state = .populated := by
    rw [hp.state, hn.state, hsame]
  have hstate : p.state = n.state := by
    cases hps : p.state <;> cases hns : n.state <;> simp_all
  rw [(samePublicTopology_iff hp).mpr ⟨hstate, hsame⟩] at hdiffers
  cases hdiffers

end Accepted

end Registry

end Nekiro
